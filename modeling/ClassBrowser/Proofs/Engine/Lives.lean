import ClassBrowser.Proofs.Engine.Surroundings

/-!
# Lives of engines

What was asked of one engine is its life: it is made, it is used, and it may be closed, which is the
end of it (`IsLife`).  At most one engine is open at a time (`World.Accounts`): making one, using
the open one and closing it keep it so.
-/

namespace ClassBrowser

/-- Whether a request has an engine do its work. -/
def Request.isUse : Request → Bool
  | .make | .close => false
  | _ => true

/-- Whether requests are the life of one engine, which is open or closed now. -/
def IsLife (requests : List Request) (isOpen : Bool) : Prop :=
  ∃ uses : List Request, (∀ r ∈ uses, r.isUse = true) ∧
    requests = .make :: (uses ++ if isOpen then [] else [.close])

/-- All that was asked of the engine of a number, in order. -/
def World.history (w : World) (number : Nat) : List Request :=
  (w.calls.filter (·.engine == number)).map Call.request

/-- Whether every engine that was made has a life, and only that of one engine, if any, goes on. -/
structure World.Accounts (w : World) (opened : Option Nat) : Prop where
  lives : ∀ n < w.engines, IsLife (w.history n) (decide (opened = some n))
  unmade : ∀ n, w.engines ≤ n → w.history n = []
  made : ∀ n, opened = some n → n < w.engines

/-! ## Traces -/

/-- Whether the surroundings are others with some calls traced. -/
structure World.Traces (w w' : World) (calls : List Call) : Prop where
  calls : w'.calls = w.calls ++ calls
  engines : w'.engines = w.engines

variable {w w' w'' : World} {calls calls' : List Call} {opened : Option Nat} {n : Nat} {c : Call}
  {requests : List Request} {r : Request}

namespace World

theorem traces_of_eq (hcalls : w'.calls = w.calls) (hengines : w'.engines = w.engines) :
    w.Traces w' [] :=
  ⟨by rw [hcalls, List.append_nil], hengines⟩

theorem Traces.refl (w : World) : w.Traces w [] := traces_of_eq rfl rfl

theorem Traces.trans (h : w.Traces w' calls) (h' : w'.Traces w'' calls') :
    w.Traces w'' (calls ++ calls') :=
  ⟨by rw [h'.calls, h.calls, List.append_assoc], h'.engines.trans h.engines⟩

/-- What leaves no trace of its own may come first or last. -/
theorem Traces.behind (h : w.Traces w' calls) (h' : w'.Traces w'' []) : w.Traces w'' calls :=
  List.append_nil calls ▸ h.trans h'

theorem Alters.traces (h : w.Alters w') : w.Traces w' [] := traces_of_eq h.calls h.engines

theorem traces_trace (w : World) (call : Call) : w.Traces (w.trace call) [call] := ⟨rfl, rfl⟩

theorem Traces.history_of_ne (h : w.Traces w' [c]) (hne : c.engine ≠ n) :
    w'.history n = w.history n := by
  have hnone : [c].filter (·.engine == n) = [] := by simpa using hne
  calc
    w'.history n = ((w.calls ++ [c]).filter (·.engine == n)).map Call.request := by
      rw [history, h.calls]
    _ = w.history n := by rw [List.filter_append, hnone, List.append_nil, history]

theorem Traces.history_engine (h : w.Traces w' [c]) :
    w'.history c.engine = w.history c.engine ++ [c.request] := by
  have hall : [c].filter (·.engine == c.engine) = [c] := by simp
  calc
    w'.history c.engine = ((w.calls ++ [c]).filter (·.engine == c.engine)).map Call.request := by
      rw [history, h.calls]
    _ = w.history c.engine ++ [c.request] := by
      rw [List.filter_append, hall, List.map_append, List.map_singleton, history]

end World

/-! ## Steps of a life -/

theorem IsLife.use (h : IsLife requests true) (hr : r.isUse = true) :
    IsLife (requests ++ [r]) true := by
  obtain ⟨uses, huses, rfl⟩ := h
  refine ⟨uses ++ [r], ?_, by simp⟩
  intro u hu
  rcases List.mem_append.1 hu with hbefore | hlast
  · exact huses u hbefore
  · rwa [List.mem_singleton.1 hlast]

theorem IsLife.close (h : IsLife requests true) : IsLife (requests ++ [.close]) false := by
  obtain ⟨uses, huses, rfl⟩ := h
  exact ⟨uses, huses, by simp⟩

theorem isLife_make : IsLife [.make] true := ⟨[], nofun, rfl⟩

namespace World.Accounts

theorem of_traces (h : w.Accounts opened) (htraces : w.Traces w' []) : w'.Accounts opened := by
  have hhistory : ∀ n, w'.history n = w.history n := by
    intro n
    rw [history, htraces.calls, List.append_nil, history]
  refine ⟨?_, ?_, ?_⟩
  · intro n hn
    rw [hhistory]
    exact h.lives n (htraces.engines ▸ hn)
  · intro n hn
    rw [hhistory]
    exact h.unmade n (htraces.engines ▸ hn)
  · intro n hn
    rw [htraces.engines]
    exact h.made n hn

/-- A request to the open engine concerns no other one. -/
theorem request (h : w.Accounts (some c.engine)) (htraces : w.Traces w' [c])
    (hlife : IsLife (w'.history c.engine) (decide (opened = some c.engine)))
    (hopened : ∀ n, opened = some n → n = c.engine) : w'.Accounts opened := by
  have hlt : c.engine < w.engines := h.made _ rfl
  refine ⟨?_, ?_, ?_⟩
  · intro n hn
    by_cases hsame : c.engine = n
    · exact hsame ▸ hlife
    · have hother : opened ≠ some n := fun hn => hsame (hopened n hn).symm
      have hlife := h.lives n (htraces.engines ▸ hn)
      rw [decide_eq_false fun he => hsame (Option.some.inj he)] at hlife
      rw [htraces.history_of_ne hsame, decide_eq_false hother]
      exact hlife
  · intro n hn
    rw [htraces.engines] at hn
    rw [htraces.history_of_ne (Nat.ne_of_lt (Nat.lt_of_lt_of_le hlt hn))]
    exact h.unmade n hn
  · intro n hn
    rw [hopened n hn, htraces.engines]
    exact hlt

theorem use (h : w.Accounts (some c.engine)) (htraces : w.Traces w' [c])
    (hc : c.request.isUse = true) : w'.Accounts (some c.engine) := by
  refine h.request htraces ?_ fun n hn => (Option.some.inj hn).symm
  have hlife := h.lives _ (h.made _ rfl)
  rw [decide_eq_true rfl] at hlife ⊢
  rw [htraces.history_engine]
  exact hlife.use hc

theorem close (h : w.Accounts (some c.engine)) (htraces : w.Traces w' [c])
    (hc : c.request = .close) : w'.Accounts none := by
  refine h.request htraces ?_ nofun
  have hlife := h.lives _ (h.made _ rfl)
  rw [decide_eq_true rfl] at hlife
  rw [htraces.history_engine, hc]
  exact hlife.close

/-- A new engine has a number of its own. -/
theorem make (h : w.Accounts none) (hcalls : w'.calls = w.calls ++ [c])
    (hengines : w'.engines = w.engines + 1) (hnumber : c.engine = w.engines)
    (hc : c.request = .make) : w'.Accounts (some w.engines) := by
  have htraces : World.Traces { w with engines := w'.engines } w' [c] := ⟨hcalls, rfl⟩
  have hother : ∀ n, n ≠ w.engines → w'.history n = w.history n := by
    intro n hn
    exact htraces.history_of_ne (hnumber ▸ Ne.symm hn)
  have hnew : w'.history w.engines = [.make] := by
    have hbefore : World.history { w with engines := w'.engines } w.engines = [] :=
      h.unmade _ (Nat.le_refl _)
    calc
      w'.history w.engines =
          World.history { w with engines := w'.engines } w.engines ++ [c.request] := by
        rw [← hnumber, htraces.history_engine]
      _ = [.make] := by
        rw [hbefore, hc]
        rfl
  refine ⟨?_, ?_, ?_⟩
  · intro n hn
    by_cases hsame : n = w.engines
    · rw [hsame, hnew, decide_eq_true rfl]
      exact isLife_make
    · rw [hother n hsame, decide_eq_false fun he => hsame (Option.some.inj he).symm]
      exact h.lives n (by omega)
  · intro n hn
    rw [hother n (by omega)]
    exact h.unmade n (by omega)
  · intro n hn
    obtain rfl := Option.some.inj hn
    omega

theorem start (hcalls : w.calls = []) (hengines : w.engines = 0) : w.Accounts none := by
  refine ⟨?_, ?_, nofun⟩
  · intro n hn
    omega
  · intro n _
    rw [history, hcalls]
    rfl

end World.Accounts

/-! ## What engines trace -/

namespace Engine

variable (e : Engine) (w : World)

theorem traces_addSource (archive : Path) :
    w.Traces (e.addSource w archive).1 [⟨e.number, e.label, .addSource archive⟩] :=
  (w.traces_trace _).behind (e.alters_addSource w archive).traces

theorem traces_decompile : w.Traces (e.decompile w).1 [⟨e.number, e.label, .decompile⟩] :=
  (w.traces_trace _).behind (e.alters_decompile w).traces

theorem traces_renderNow (name : String) :
    w.Traces (e.renderNow w name).1 [⟨e.number, e.label, .render name⟩] :=
  (w.traces_trace _).behind (e.alters_renderNow w name).traces

theorem traces_render (name : String) :
    w.Traces (e.render w name).1 [⟨e.number, e.label, .render name⟩] :=
  (w.traces_trace _).behind (e.alters_render w name).traces

theorem traces_close : w.Traces (e.close w).1 [⟨e.number, e.label, .close⟩] :=
  (w.traces_trace _).behind (e.alters_close w).traces

end Engine

/-- A factory makes a new engine, or leaves everything as it was. -/
theorem Factory.accounts_make {f : Factory} {e : Engine} (h : w.Accounts none)
    (hmake : f.make w = (w', .ok e)) :
    w'.Accounts (some e.number) ∧ e.number = w.engines ∧ w'.engines = w.engines + 1 := by
  cases f with
  | script s =>
    cases hmake
    exact ⟨h.make rfl rfl rfl rfl, rfl, rfl⟩
  | decompiler s =>
    cases hmake
    exact ⟨h.make rfl rfl rfl rfl, rfl, rfl⟩
  | broken t => cases hmake

theorem Factory.eq_of_make_error {f : Factory} {t : Thrown} (hmake : f.make w = (w', .error t)) :
    w' = w := by
  cases f with
  | script s => cases hmake
  | decompiler s => cases hmake
  | broken t =>
    cases hmake
    rfl

end ClassBrowser
