/-!
# Insertion-ordered tables

A table is a list of pairs with distinct keys, in the order in which the keys first arrived.
Storing under a key that is present replaces the value where it stands; a new key goes to the end.
The look-up law is `get?_insert`, the order law is `keys_insert`.
-/

namespace ClassBrowser

/-- A table as the list of its pairs, oldest key first. -/
abbrev Assoc (κ α : Type) := List (κ × α)

namespace Assoc

variable {κ α : Type} [DecidableEq κ]

/-- The value under a key. -/
def get? : Assoc κ α → κ → Option α
  | [], _ => none
  | (k, v) :: rest, x => if k = x then some v else get? rest x

def contains (t : Assoc κ α) (x : κ) : Bool := (get? t x).isSome

/-- Stores a value under a key: in place where the key is present, else at the end. -/
def insert : Assoc κ α → κ → α → Assoc κ α
  | [], x, v => [(x, v)]
  | (k, w) :: rest, x, v => if k = x then (k, v) :: rest else (k, w) :: insert rest x v

def keys (t : Assoc κ α) : List κ := t.map Prod.fst

def insertAll (t : Assoc κ α) (pairs : List (κ × α)) : Assoc κ α :=
  pairs.foldl (fun t p => insert t p.1 p.2) t

@[simp] theorem get?_nil (x : κ) : get? ([] : Assoc κ α) x = none := rfl

theorem get?_insert (t : Assoc κ α) (x y : κ) (v : α) :
    get? (insert t x v) y = if x = y then some v else get? t y := by
  induction t with
  | nil => simp [insert, get?]
  | cons p rest ih =>
    obtain ⟨k, w⟩ := p
    by_cases hk : k = x
    · subst hk
      by_cases hy : k = y <;> simp [insert, get?, hy]
    · by_cases hy : k = y
      · subst hy
        simp [insert, get?, hk, Ne.symm hk]
      · simp [insert, get?, hk, hy, ih]

/-- A key that is present keeps its place; a new one goes to the end. -/
theorem keys_insert (t : Assoc κ α) (x : κ) (v : α) :
    keys (insert t x v) = if x ∈ keys t then keys t else keys t ++ [x] := by
  induction t with
  | nil => simp [insert, keys]
  | cons p rest ih =>
    obtain ⟨k, w⟩ := p
    by_cases hk : k = x
    · simp [insert, keys, hk]
    · have hx : ¬ x = k := Ne.symm hk
      simp only [keys] at ih
      by_cases hm : x ∈ rest.map Prod.fst <;> simp [insert, keys, hk, hx, ih, hm]

theorem get?_eq_none_iff (t : Assoc κ α) (x : κ) : get? t x = none ↔ x ∉ keys t := by
  induction t with
  | nil => simp [keys]
  | cons p rest ih =>
    obtain ⟨k, w⟩ := p
    by_cases hk : k = x
    · simp [get?, keys, hk]
    · simp only [keys] at ih
      simp [get?, keys, hk, Ne.symm hk, ih]

theorem nodup_keys_insert {t : Assoc κ α} (h : (keys t).Nodup) (x : κ) (v : α) :
    (keys (insert t x v)).Nodup := by
  rw [keys_insert]
  split
  · exact h
  · next hx =>
    rw [List.nodup_append]
    refine ⟨h, by simp, ?_⟩
    intro a ha b hb hab
    simp at hb
    exact hx (hb ▸ hab ▸ ha)

end Assoc

end ClassBrowser
