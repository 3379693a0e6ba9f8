import ClassBrowser.Assoc
import Mathlib.Data.List.Induction
import Mathlib.Data.List.Nodup

/-!
# Tables after many insertions

Laws of storing a list of pairs: the last pair with a key decides on its value, and its first one on
its place.  Where the value is determined by the key, the order of the pairs and repetitions among
them do not matter, and pairs with new and distinct keys are just put at the end.
-/

namespace ClassBrowser.Assoc

variable {κ α : Type} [DecidableEq κ] {t u : Assoc κ α} {pairs : List (κ × α)} {x y : κ} {v : α}

theorem mem_keys_iff : x ∈ keys t ↔ ∃ v, get? t x = some v := by
  rw [← Option.isSome_iff_exists, Option.isSome_iff_ne_none, ne_eq, get?_eq_none_iff, not_not]

theorem get?_eq_some_iff (h : (keys t).Nodup) : get? t x = some v ↔ (x, v) ∈ t := by
  induction t with
  | nil => simp
  | cons p rest ih =>
    obtain ⟨k, w⟩ := p
    obtain ⟨hk, hrest⟩ := List.nodup_cons.1 h
    rw [get?, List.mem_cons, Prod.mk.injEq]
    by_cases hkx : k = x
    · subst hkx
      have hmem : (k, v) ∉ rest := fun hmem => hk (List.mem_map.2 ⟨(k, v), hmem, rfl⟩)
      simp [hmem, eq_comm]
    · rw [if_neg hkx, ih hrest]
      simp [Ne.symm hkx]

theorem mem_of_get? (h : get? t x = some v) : (x, v) ∈ t := by
  induction t with
  | nil => cases h
  | cons p rest ih =>
    obtain ⟨k, w⟩ := p
    rw [get?] at h
    split at h
    · next hk =>
      obtain rfl := Option.some.inj h
      exact hk ▸ List.mem_cons_self
    · exact List.mem_cons_of_mem _ (ih h)

theorem get?_append (t t' : Assoc κ α) (x : κ) :
    get? (t ++ t') x = (get? t x).or (get? t' x) := by
  induction t with
  | nil => rfl
  | cons p rest ih =>
    obtain ⟨k, w⟩ := p
    rw [List.cons_append, get?, get?]
    by_cases hk : k = x
    · rw [if_pos hk, if_pos hk, Option.some_or]
    · rw [if_neg hk, if_neg hk, ih]

theorem get?_filter (keep : κ → Bool) (t : Assoc κ α) (x : κ) :
    get? (t.filter fun p => keep p.1) x = if keep x then get? t x else none := by
  induction t with
  | nil => simp
  | cons p rest ih =>
    obtain ⟨k, w⟩ := p
    rw [List.filter_cons]
    by_cases hk : keep k = true
    · rw [if_pos hk, get?, get?, ih]
      by_cases hkx : k = x
      · subst hkx
        rw [if_pos rfl, if_pos hk, if_pos rfl]
      · rw [if_neg hkx, if_neg hkx]
    · rw [if_neg hk, ih, get?]
      by_cases hkx : k = x
      · subst hkx
        rw [if_neg hk, if_neg hk]
      · rw [if_neg hkx]

theorem insert_of_not_mem (h : x ∉ keys t) (v : α) : insert t x v = t ++ [(x, v)] := by
  induction t with
  | nil => rfl
  | cons p rest ih =>
    obtain ⟨k, w⟩ := p
    obtain ⟨hk, hrest⟩ := List.ne_and_not_mem_of_not_mem_cons h
    rw [insert, if_neg (Ne.symm hk), ih hrest, List.cons_append]

theorem insertAll_cons (t : Assoc κ α) (p : κ × α) (pairs : List (κ × α)) :
    insertAll t (p :: pairs) = insertAll (insert t p.1 p.2) pairs := rfl

theorem nodup_keys_insertAll (h : (keys t).Nodup) (pairs : List (κ × α)) :
    (keys (insertAll t pairs)).Nodup := by
  induction pairs generalizing t with
  | nil => exact h
  | cons p pairs ih => exact ih (nodup_keys_insert h p.1 p.2)

/-- Values that are a function of the key are found under every key that was stored. -/
theorem get?_insertAll {f : κ → α} (h : ∀ p ∈ pairs, p.2 = f p.1) (t : Assoc κ α) (x : κ) :
    get? (insertAll t pairs) x = if x ∈ pairs.map Prod.fst then some (f x) else get? t x := by
  induction pairs generalizing t with
  | nil => simp [insertAll]
  | cons p pairs ih =>
    obtain ⟨hp, hpairs⟩ := List.forall_mem_cons.1 h
    rw [insertAll_cons, ih hpairs, get?_insert]
    by_cases hmem : x ∈ pairs.map Prod.fst
    · simp [hmem]
    · rw [if_neg hmem]
      by_cases hx : p.1 = x
      · subst hx
        simp [hp]
      · have hcons : x ∉ (p :: pairs).map Prod.fst := by
          rw [List.map_cons, List.mem_cons, not_or]
          exact ⟨Ne.symm hx, hmem⟩
        rw [if_neg hx, if_neg hcons]

theorem insertAll_of_nodup (h : (keys (t ++ pairs)).Nodup) : insertAll t pairs = t ++ pairs := by
  induction pairs generalizing t with
  | nil => simp [insertAll]
  | cons p pairs ih =>
    have hkeys : keys (t ++ p :: pairs) = keys t ++ p.1 :: keys pairs := by
      simp [keys]
    have hp : p.1 ∉ keys t := by
      rw [hkeys, List.nodup_append] at h
      intro hmem
      exact h.2.2 p.1 hmem p.1 (by simp) rfl
    have happend : t ++ p :: pairs = (t ++ [p]) ++ pairs := by
      simp
    rw [insertAll_cons, insert_of_not_mem hp, ih (happend ▸ h), happend]

/-! ## Storing what was stored before -/

theorem insertAll_append (t : Assoc κ α) (pairs pairs' : List (κ × α)) :
    insertAll t (pairs ++ pairs') = insertAll (insertAll t pairs) pairs' :=
  List.foldl_append

theorem insert_insert_self (t : Assoc κ α) (x : κ) (v w : α) :
    insert (insert t x w) x v = insert t x v := by
  induction t with
  | nil => simp [insert]
  | cons p rest ih =>
    obtain ⟨k, u⟩ := p
    by_cases hk : k = x
    · simp [insert, hk]
    · simp [insert, hk, ih]

/-- A key that is present keeps its place, so its value may as well be replaced afterwards. -/
theorem insert_comm_of_mem (hx : x ∈ keys t) (hxy : x ≠ y) (v w : α) :
    insert (insert t x v) y w = insert (insert t y w) x v := by
  induction t with
  | nil => simp [keys] at hx
  | cons p rest ih =>
    obtain ⟨k, u⟩ := p
    by_cases hk : k = x
    · subst hk
      simp [insert, hxy]
    · have hrest : x ∈ keys rest := (List.mem_cons.1 hx).resolve_left (Ne.symm hk)
      by_cases hy : k = y
      · subst hy
        simp [insert, hk]
      · simp [insert, hk, hy, ih hrest]

theorem mem_keys_insert_self (t : Assoc κ α) (x : κ) (v : α) : x ∈ keys (insert t x v) := by
  rw [mem_keys_iff]
  exact ⟨v, by rw [get?_insert, if_pos rfl]⟩

theorem insertAll_insert_of_mem (hx : x ∈ keys t) (hnew : x ∉ pairs.map Prod.fst) (v : α) :
    insertAll (insert t x v) pairs = insert (insertAll t pairs) x v := by
  induction pairs generalizing t with
  | nil => rfl
  | cons p pairs ih =>
    obtain ⟨k, w⟩ := p
    obtain ⟨hk, hrest⟩ := List.ne_and_not_mem_of_not_mem_cons hnew
    have hkept : x ∈ keys (insert t k w) := by
      rw [keys_insert]
      split
      · exact hx
      · exact List.mem_append_left [k] hx
    rw [insertAll_cons, insert_comm_of_mem hx hk, ih hkept hrest, insertAll_cons]

theorem insertAll_insert (h : (keys u).Nodup) (t : Assoc κ α) (x : κ) (v : α) :
    insertAll t (insert u x v) = insert (insertAll t u) x v := by
  induction u generalizing t with
  | nil => rfl
  | cons p rest ih =>
    obtain ⟨k, w⟩ := p
    obtain ⟨hk, hrest⟩ := List.nodup_cons.1 h
    by_cases hkx : k = x
    · subst hkx
      calc
        insertAll t (insert ((k, w) :: rest) k v) = insertAll (insert t k v) rest := by
          rw [insert, if_pos rfl, insertAll_cons]
        _ = insertAll (insert (insert t k w) k v) rest := by rw [insert_insert_self]
        _ = insert (insertAll (insert t k w) rest) k v :=
          insertAll_insert_of_mem (mem_keys_insert_self t k w) hk v
        _ = insert (insertAll t ((k, w) :: rest)) k v := by rw [insertAll_cons]
    · rw [insert, if_neg hkx, insertAll_cons, insertAll_cons, ih hrest]

/-- Storing a table that was made from pairs is storing the pairs. -/
theorem insertAll_insertAll (t : Assoc κ α) (pairs : List (κ × α)) :
    insertAll t (insertAll [] pairs) = insertAll t pairs := by
  induction pairs using List.reverseRecOn with
  | nil => rfl
  | append_singleton pairs p ih =>
    have hnodup : (keys (insertAll [] pairs)).Nodup :=
      nodup_keys_insertAll (t := []) List.nodup_nil pairs
    have hlast (t : Assoc κ α) : insertAll t (pairs ++ [p]) = insert (insertAll t pairs) p.1 p.2 :=
      insertAll_append t pairs [p]
    calc
      insertAll t (insertAll [] (pairs ++ [p])) =
          insertAll t (insert (insertAll [] pairs) p.1 p.2) := by rw [hlast]
      _ = insert (insertAll t (insertAll [] pairs)) p.1 p.2 := insertAll_insert hnodup t p.1 p.2
      _ = insert (insertAll t pairs) p.1 p.2 := by rw [ih]
      _ = insertAll t (pairs ++ [p]) := (hlast t).symm

theorem map_insertAll {κ' α' : Type} [DecidableEq κ'] {f : κ → κ'} (hf : f.Injective)
    (g : α → α') (t : Assoc κ α) (pairs : List (κ × α)) :
    (insertAll t pairs).map (Prod.map f g) =
      insertAll (t.map (Prod.map f g)) (pairs.map (Prod.map f g)) := by
  have hinsert (t : Assoc κ α) (x : κ) (v : α) :
      (insert t x v).map (Prod.map f g) = insert (t.map (Prod.map f g)) (f x) (g v) := by
    induction t with
    | nil => rfl
    | cons p rest ih =>
      obtain ⟨k, w⟩ := p
      by_cases hk : k = x
      · simp [insert, hk]
      · simp [insert, hk, hf.ne hk, ih]
  induction pairs generalizing t with
  | nil => rfl
  | cons p pairs ih => rw [insertAll_cons, ih, hinsert]; rfl

/-! ## Which key and which value -/

/-- The value of the last pair with a key. -/
def last? (pairs : List (κ × α)) (x : κ) : Option α := get? pairs.reverse x

theorem last?_append (pairs pairs' : List (κ × α)) (x : κ) :
    last? (pairs ++ pairs') x = (last? pairs' x).or (last? pairs x) := by
  rw [last?, List.reverse_append, get?_append]
  rfl

/-- The last pair with a key decides on its value. -/
theorem get?_insertAll_eq_or (t : Assoc κ α) (pairs : List (κ × α)) (x : κ) :
    get? (insertAll t pairs) x = (last? pairs x).or (get? t x) := by
  induction pairs generalizing t with
  | nil => rfl
  | cons p pairs ih =>
    have hfirst : (get? (t.insert p.1 p.2) x) = (last? [p] x).or (get? t x) := by
      rw [get?_insert]
      show _ = (if p.1 = x then some p.2 else none).or _
      by_cases hp : p.1 = x
      · rw [if_pos hp, if_pos hp, Option.some_or]
      · rw [if_neg hp, if_neg hp, Option.none_or]
    calc
      get? (insertAll t (p :: pairs)) x = (last? pairs x).or (get? (t.insert p.1 p.2) x) := by
        rw [insertAll_cons, ih]
      _ = ((last? pairs x).or (last? [p] x)).or (get? t x) := by rw [hfirst, Option.or_assoc]
      _ = (last? (p :: pairs) x).or (get? t x) := by
        rw [← last?_append, List.singleton_append]

theorem insertAll_eq_nil_iff : insertAll ([] : Assoc κ α) pairs = [] ↔ pairs = [] := by
  constructor
  · intro h
    by_contra hne
    obtain ⟨p, rest, rfl⟩ := List.exists_cons_of_ne_nil hne
    have hlast := get?_insertAll_eq_or ([] : Assoc κ α) (p :: rest) p.1
    rw [h, get?_nil, Option.or_none, last?, eq_comm, get?_eq_none_iff] at hlast
    exact hlast (List.mem_map.2 ⟨p, List.mem_reverse.2 List.mem_cons_self, rfl⟩)
  · rintro rfl
    rfl

theorem eraseDups_of_nodup {l : List κ} (h : l.Nodup) : l.eraseDups = l := by
  induction l with
  | nil => rfl
  | cons a l ih =>
    obtain ⟨ha, hl⟩ := List.nodup_cons.1 h
    have hother : l.filter (fun b => !b == a) = l :=
      List.filter_eq_self.2 fun b hb => by simpa using ne_of_mem_of_not_mem hb ha
    rw [List.eraseDups_cons, hother, ih hl]

theorem eraseDups_concat (l : List κ) (x : κ) :
    (l ++ [x]).eraseDups = if x ∈ l then l.eraseDups else l.eraseDups ++ [x] := by
  rw [List.eraseDups_append]
  by_cases hx : x ∈ l
  · rw [if_pos hx, List.removeAll, List.filter_cons_of_neg (by simpa using hx)]
    simp
  · rw [if_neg hx, List.removeAll, List.filter_cons_of_pos (by simpa using hx),
      List.filter_nil, List.eraseDups_cons]
    simp

theorem eraseDups_sublist (l : List κ) : l.eraseDups.Sublist l := by
  induction l using List.reverseRecOn with
  | nil => exact .slnil
  | append_singleton l x ih =>
    rw [eraseDups_concat]
    split
    · exact ih.trans (List.sublist_append_left l [x])
    · exact ih.append (.refl [x])

/-- The keys stand in the order of their first appearance. -/
theorem keys_insertAll (h : (keys t).Nodup) (pairs : List (κ × α)) :
    keys (insertAll t pairs) = (keys t ++ pairs.map Prod.fst).eraseDups := by
  induction pairs generalizing t with
  | nil =>
    rw [List.map_nil, List.append_nil, eraseDups_of_nodup h]
    rfl
  | cons p pairs ih =>
    rw [insertAll_cons, ih (nodup_keys_insert h p.1 p.2), keys_insert, List.map_cons]
    split
    · next hmem =>
      rw [List.eraseDups_append, List.eraseDups_append]
      simp [List.removeAll, hmem]
    · rw [List.append_assoc, List.singleton_append]
end ClassBrowser.Assoc
