import ClassBrowser.Proofs.Task.Steps

/-!
# Receiving messages

Messages are received from the front of a task's queue.  Receiving some of them changes nothing
else about the task, and brings no outcome that its worker has not sent (`Task.Receives`).
-/

namespace ClassBrowser

variable {t u : Task} {o : Outcome} {messages : List Message} {p : Pipeline}

/-- The outcomes of a task, received and still to be received. -/
def Task.outcomes (t : Task) : List Outcome :=
  t.outcome.toList ++ t.queue.filterMap Message.outcome?

namespace Task

theorem mem_received {known : Option Outcome} (h : received known messages = some o) :
    o ∈ known.toList ++ messages.filterMap Message.outcome? := by
  induction messages generalizing known with
  | nil => simpa [received] using h
  | cons m rest ih =>
    have hrest := ih (show received (m.outcome?.orElse fun _ => known) rest = some o from h)
    cases hm : m.outcome? with
    | none => simpa [List.filterMap_cons, hm] using hrest
    | some o' =>
      rw [hm] at hrest
      simp only [List.filterMap_cons, hm]
      exact List.mem_append_right _ (by simpa using hrest)

theorem throughOutcome_isPrefix (messages : List Message) :
    throughOutcome messages <+: messages := by
  induction messages with
  | nil => exact List.prefix_refl _
  | cons m rest ih =>
    rw [throughOutcome]
    split
    · exact ⟨rest, rfl⟩
    · exact List.cons_prefix_cons.2 ⟨rfl, ih⟩

theorem outcomes_received_subset {behind : List Message} (h : messages ++ behind = t.queue) :
    outcomes { t with queue := behind, outcome := received t.outcome messages } ⊆ t.outcomes := by
  intro o ho
  rw [outcomes, ← h, List.filterMap_append, ← List.append_assoc]
  rcases List.mem_append.1 ho with hreceived | hbehind
  · exact List.mem_append_left _ (mem_received (Option.mem_toList.1 hreceived))
  · exact List.mem_append_right _ hbehind

/-- Whether the second task is the first one with some of its messages received. -/
structure Receives (t u : Task) : Prop where
  kind : u.kind = t.kind
  stage : u.stage = t.stage
  outcomes : u.outcomes ⊆ t.outcomes

theorem receives_poll (t : Task) : t.Receives t.poll.1 :=
  ⟨rfl, rfl, outcomes_received_subset (List.append_nil _)⟩

theorem receives_wait (t : Task) : t.Receives t.wait.1 := by
  rw [wait]
  split
  · exact ⟨rfl, rfl, fun _ h => h⟩
  · refine ⟨rfl, rfl, outcomes_received_subset ?_⟩
    exact List.prefix_iff_eq_append.1 (throughOutcome_isPrefix t.queue)

end Task

namespace Pipeline

theorem head?_setTask {number : Nat} (ht : p.task? number = some t) (hu : u.number = t.number) :
    (p.setTask u).tasks.head? = p.tasks.head? ∨
      (p.tasks.head? = some t ∧ (p.setTask u).tasks.head? = some u) := by
  obtain ⟨workspace, tasks⟩ := p
  cases tasks with
  | nil => exact .inl rfl
  | cons first rest =>
    by_cases hfirst : first.number = u.number
    · have hnumber : t.number = number := by
        simpa using List.find?_some ht
      have hfound : task? ⟨workspace, first :: rest⟩ number = some first :=
        List.find?_cons_of_pos (by simpa using hfirst.trans (hu.trans hnumber))
      obtain rfl : first = t := Option.some.inj (hfound.symm.trans ht)
      refine .inr ⟨rfl, ?_⟩
      simp [setTask, hfirst]
    · refine .inl ?_
      simp [setTask, hfirst]

/-- Whether the second pipeline is the first one with some messages of its tasks received. -/
structure Receives (p q : Pipeline) : Prop where
  workspace : q.workspace = p.workspace
  latest : q.tasks.head? = p.tasks.head? ∨
    ∃ t u, p.tasks.head? = some t ∧ q.tasks.head? = some u ∧ t.Receives u

theorem receives_setTask {number : Nat} (ht : p.task? number = some t) (hu : u.number = t.number)
    (h : t.Receives u) : p.Receives (p.setTask u) := by
  refine ⟨rfl, ?_⟩
  rcases head?_setTask ht hu with hsame | ⟨hfirst, hset⟩
  · exact .inl hsame
  · exact .inr ⟨t, u, hfirst, hset, h⟩

theorem receives_poll (p : Pipeline) (number : Nat) : p.Receives (p.poll number).1 := by
  unfold poll
  split
  · exact ⟨rfl, .inl rfl⟩
  · next t ht => exact receives_setTask ht rfl t.receives_poll

theorem receives_wait (p : Pipeline) (number : Nat) : p.Receives (p.wait number).1 := by
  unfold wait
  split
  · exact ⟨rfl, .inl rfl⟩
  · next t ht =>
    have hnumber : t.wait.1.number = t.number := by
      rw [Task.wait]
      split <;> rfl
    exact receives_setTask ht hnumber t.receives_wait

end Pipeline

end ClassBrowser
