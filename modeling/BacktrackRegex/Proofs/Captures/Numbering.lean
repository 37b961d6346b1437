import BacktrackRegex.Regex

/-!
# Numbers of capturing groups

* `Regex.ids` — the numbers of the capturing groups of a regex, in the order in which the groups
  open;
* `Regex.NumberedFrom` — these are consecutive, from a given number on.
-/

set_option autoImplicit false

namespace BacktrackRegex

mutual

/-- The numbers of the capturing groups, in the order in which the groups open. -/
def Regex.ids : Regex → List Nat
  | .seq items => itemsIds items
  | .alt branches => branchesIds branches
  | .group id body => id.toList ++ body.ids
  | .leaf _ => []

/-- The numbers in the items of a sequence. -/
def itemsIds : List (Regex × Quantifier) → List Nat
  | [] => []
  | (r, _) :: items => r.ids ++ itemsIds items

/-- The numbers in the branches of an alternation. -/
def branchesIds : List Regex → List Nat
  | [] => []
  | r :: branches => r.ids ++ branchesIds branches

end

/-- The groups are numbered consecutively, the first one with `next`. -/
def Regex.NumberedFrom (r : Regex) (next : Nat) : Prop := r.ids = List.range' next r.groupCount

/-- The groups in the items of a sequence are numbered consecutively. -/
def ItemsNumberedFrom (items : List (Regex × Quantifier)) (next : Nat) : Prop :=
  itemsIds items = List.range' next (itemsGroupCount items)

/-- The groups in the branches of an alternation are numbered consecutively. -/
def BranchesNumberedFrom (branches : List Regex) (next : Nat) : Prop :=
  branchesIds branches = List.range' next (branchesGroupCount branches)

/-! ## As many numbers as groups -/

mutual

theorem Regex.ids_length : ∀ r : Regex, r.ids.length = r.groupCount
  | .seq items => itemsIds_length items
  | .alt branches => branchesIds_length branches
  | .group none body => by
    rw [Regex.ids, Regex.groupCount, Option.toList_none, List.nil_append, Regex.ids_length body]
    exact (Nat.zero_add _).symm
  | .group (some id) body => by
    rw [Regex.ids, Regex.groupCount, Option.toList_some, List.singleton_append, List.length_cons,
      Regex.ids_length body]
    exact Nat.add_comm _ _
  | .leaf _ => rfl

theorem itemsIds_length : ∀ items : List (Regex × Quantifier),
    (itemsIds items).length = itemsGroupCount items
  | [] => rfl
  | (r, _) :: items => by
    rw [itemsIds, itemsGroupCount, List.length_append, Regex.ids_length r, itemsIds_length items]

theorem branchesIds_length : ∀ branches : List Regex,
    (branchesIds branches).length = branchesGroupCount branches
  | [] => rfl
  | r :: branches => by
    rw [branchesIds, branchesGroupCount, List.length_append, Regex.ids_length r,
      branchesIds_length branches]

end

/-! ## Consecutive numbers of the parts -/

theorem append_eq_range' {as bs : List Nat} {start m n : Nat} (h : as.length = m) :
    as ++ bs = List.range' start (m + n) ↔
      as = List.range' start m ∧ bs = List.range' (start + m) n := by
  rw [← List.range'_append_1]
  constructor
  · intro hBoth
    exact List.append_inj hBoth (by rw [h, List.length_range'])
  · rintro ⟨rfl, rfl⟩
    rfl

theorem numberedFrom_group_none {body : Regex} {next : Nat} :
    (Regex.group none body).NumberedFrom next ↔ body.NumberedFrom next := by
  rw [Regex.NumberedFrom, Regex.ids, Regex.groupCount, Option.toList_none, List.nil_append,
    Option.isSome_none, if_neg Bool.false_ne_true, Nat.zero_add]
  exact Iff.rfl

theorem numberedFrom_group_some {id : Nat} {body : Regex} {next : Nat} :
    (Regex.group (some id) body).NumberedFrom next ↔
      id = next ∧ body.NumberedFrom (next + 1) := by
  rw [Regex.NumberedFrom, Regex.ids, Regex.groupCount, Option.isSome_some, if_pos rfl,
    Option.toList_some, append_eq_range' (List.length_singleton)]
  simp [Regex.NumberedFrom]

theorem itemsNumberedFrom_cons {r : Regex} {q : Quantifier} {items : List (Regex × Quantifier)}
    {next : Nat} :
    ItemsNumberedFrom ((r, q) :: items) next ↔
      r.NumberedFrom next ∧ ItemsNumberedFrom items (next + r.groupCount) :=
  append_eq_range' (Regex.ids_length r)

theorem branchesNumberedFrom_cons {r : Regex} {branches : List Regex} {next : Nat} :
    BranchesNumberedFrom (r :: branches) next ↔
      r.NumberedFrom next ∧ BranchesNumberedFrom branches (next + r.groupCount) :=
  append_eq_range' (Regex.ids_length r)

end BacktrackRegex
