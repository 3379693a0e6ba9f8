/-!
# Computations that may fail

What it takes for a computation that is put together from others to succeed.
-/

namespace ClassBrowser

variable {ε ε' α β : Type} {x : Except ε α} {a : α}

theorem bind_eq_ok_iff {f : α → Except ε β} {b : β} :
    x >>= f = .ok b ↔ ∃ a, x = .ok a ∧ f a = .ok b := by
  cases x <;> simp [bind, Except.bind]

theorem bind_eq_error_iff {f : α → Except ε β} {e : ε} :
    x >>= f = .error e ↔ x = .error e ∨ ∃ a, x = .ok a ∧ f a = .error e := by
  cases x <;> simp [bind, Except.bind]

theorem mapError_eq_ok_iff {f : ε → ε'} : x.mapError f = .ok a ↔ x = .ok a := by
  cases x with
  | error e => exact ⟨nofun, nofun⟩
  | ok b =>
    show (.ok b : Except ε' α) = .ok a ↔ (.ok b : Except ε α) = .ok a
    simp

/-- Two computations whose first results correspond, and which go on from these to results that
correspond. -/
theorem map_bind {α' β' : Type} {f : α → α'} {g : α → Except ε β} {g' : α' → Except ε β'}
    {h : β → β'} (hg : ∀ a, g' (f a) = (g a).map h) : x.map f >>= g' = (x >>= g).map h := by
  cases x with
  | error e => rfl
  | ok a => exact hg a

theorem mapError_map (x : Except ε α) (f : α → β) (e : ε → ε') :
    (x.map f).mapError e = (x.mapError e).map f := by
  cases x <;> rfl

/-- What is in the results of several computations is in that of one of them. -/
theorem mem_flatten_of_mapM {f : α → Except ε (List β)} {l : List α} {found : List (List β)}
    {b : β} (h : l.mapM f = .ok found) :
    b ∈ found.flatten ↔ ∃ a ∈ l, ∃ bs, f a = .ok bs ∧ b ∈ bs := by
  induction l generalizing found with
  | nil =>
    cases h
    simp
  | cons first rest ih =>
    rw [List.mapM_cons] at h
    obtain ⟨bs, hfirst, h⟩ := bind_eq_ok_iff.1 h
    obtain ⟨others, hrest, h⟩ := bind_eq_ok_iff.1 h
    cases h
    simp [ih hrest, hfirst]

theorem exists_of_mapM_eq_ok {f : α → Except ε β} {l : List α} {bs : List β}
    (h : l.mapM f = .ok bs) (ha : a ∈ l) : ∃ b, f a = .ok b := by
  induction l generalizing bs with
  | nil => cases ha
  | cons first rest ih =>
    rw [List.mapM_cons] at h
    obtain ⟨b, hfirst, h⟩ := bind_eq_ok_iff.1 h
    obtain ⟨others, hrest, -⟩ := bind_eq_ok_iff.1 h
    obtain rfl | hmem := List.mem_cons.1 ha
    · exact ⟨b, hfirst⟩
    · exact ih hrest hmem

theorem exists_mapM_eq_ok {f : α → Except ε β} {l : List α} (h : ∀ a ∈ l, ∃ b, f a = .ok b) :
    ∃ bs, l.mapM f = .ok bs := by
  induction l with
  | nil => exact ⟨[], rfl⟩
  | cons first rest ih =>
    obtain ⟨b, hfirst⟩ := h first List.mem_cons_self
    obtain ⟨bs, hrest⟩ := ih fun a ha => h a (List.mem_cons_of_mem _ ha)
    exact ⟨b :: bs, by rw [List.mapM_cons, hfirst, hrest]; rfl⟩

/-- Where one of several computations fails, they fail as one of them does. -/
theorem exists_mapM_eq_error {f : α → Except ε β} {l : List α} {P : ε → Prop} (ha : a ∈ l)
    (hfails : ∃ e, f a = .error e) (hall : ∀ b ∈ l, ∀ e, f b = .error e → P e) :
    ∃ e, l.mapM f = .error e ∧ P e := by
  induction l with
  | nil => cases ha
  | cons first rest ih =>
    rw [List.mapM_cons]
    cases hfirst : f first with
    | error e => exact ⟨e, rfl, hall first List.mem_cons_self e hfirst⟩
    | ok b =>
      have hrest : a ∈ rest := (List.mem_cons.1 ha).resolve_left fun heq => by
        obtain ⟨e, he⟩ := hfails
        cases hfirst.symm.trans (heq ▸ he)
      obtain ⟨e, he, hP⟩ := ih hrest fun b hb => hall b (List.mem_cons_of_mem _ hb)
      exact ⟨e, by rw [he]; rfl, hP⟩

theorem toOption_eq_some_iff : x.toOption = some a ↔ x = .ok a := by
  cases x <;> simp [Except.toOption]

theorem eq_ok_of_toOption (h : x.toOption = some a) : x = .ok a := toOption_eq_some_iff.1 h

end ClassBrowser
