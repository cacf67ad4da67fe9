import JobOperator.Api.Cluster
import JobOperator.Proofs.SortedMap

/-!
Clusters to which objects are added. An object is added only where there is none, so a cluster in
which many are wanted has each of its own objects, and of those wanted the first of each key.
-/

namespace JobOperator

namespace Cluster

variable {cluster : Cluster} {key : ObjectKey} {body : Json}

/-- The cluster with an object, unless its key is taken. -/
def addMissing (cluster : Cluster) (key : ObjectKey) (body : Json) : Cluster :=
  if cluster.contains key then cluster else cluster.insert key body

theorem get?_addMissing (cluster : Cluster) (key : ObjectKey) (body : Json) (k : ObjectKey) :
    (cluster.addMissing key body).get? k =
      (cluster.get? k).or (if k = key then some body else none) := by
  unfold addMissing
  split
  · rename_i h
    obtain ⟨object, hobject⟩ := SortedMap.contains_iff.1 h
    by_cases hk : k = key
    · rw [hk, hobject]
      rfl
    · rw [if_neg hk, Option.or_none]
  · rename_i h
    have hnone := SortedMap.contains_eq_false_iff.1 (Bool.eq_false_iff.2 h)
    by_cases hk : k = key
    · rw [hk, SortedMap.get?_insert_self, hnone, if_pos rfl]
      rfl
    · rw [SortedMap.get?_insert_ne _ hk, if_neg hk, Option.or_none]

/-- The cluster with all of these objects, each unless its key is taken. -/
def addAll (cluster : Cluster) (wanted : List (ObjectKey × Json)) : Cluster :=
  wanted.foldl (fun cluster e => cluster.addMissing e.1 e.2) cluster

@[simp] theorem addAll_nil (cluster : Cluster) : cluster.addAll [] = cluster := rfl

theorem addAll_cons (cluster : Cluster) (e : ObjectKey × Json) (wanted : List (ObjectKey × Json)) :
    cluster.addAll (e :: wanted) = (cluster.addMissing e.1 e.2).addAll wanted := rfl

theorem addAll_append (cluster : Cluster) (wanted others : List (ObjectKey × Json)) :
    cluster.addAll (wanted ++ others) = (cluster.addAll wanted).addAll others :=
  List.foldl_append

/-- The value of the first entry of a key. -/
def firstOf (key : ObjectKey) (wanted : List (ObjectKey × Json)) : Option Json :=
  (wanted.find? (·.1 = key)).map (·.2)

theorem firstOf_cons (key : ObjectKey) (e : ObjectKey × Json) (wanted : List (ObjectKey × Json)) :
    firstOf key (e :: wanted) = if e.1 = key then some e.2 else firstOf key wanted := by
  by_cases h : e.1 = key <;> simp [firstOf, h]

theorem firstOf_eq_none_iff {wanted : List (ObjectKey × Json)} :
    firstOf key wanted = none ↔ ∀ e ∈ wanted, e.1 ≠ key := by
  simp [firstOf]

theorem mem_of_firstOf {wanted : List (ObjectKey × Json)} (h : firstOf key wanted = some body) :
    (key, body) ∈ wanted := by
  obtain ⟨e, he, rfl⟩ := Option.map_eq_some_iff.1 h
  have hkey : e.1 = key := by simpa using List.find?_some he
  exact hkey ▸ List.mem_of_find?_eq_some he

theorem get?_addAll (cluster : Cluster) (wanted : List (ObjectKey × Json)) (key : ObjectKey) :
    (cluster.addAll wanted).get? key = (cluster.get? key).or (firstOf key wanted) := by
  induction wanted generalizing cluster with
  | nil => exact (Option.or_none).symm
  | cons e wanted ih =>
    rw [addAll_cons, ih, get?_addMissing, firstOf_cons, Option.or_assoc]
    by_cases h : key = e.1
    · simp [h]
    · simp [h, Ne.symm h]

/-- Nothing is added where every wanted object is there. -/
theorem addAll_eq_self {wanted : List (ObjectKey × Json)}
    (h : ∀ e ∈ wanted, cluster.contains e.1 = true) : cluster.addAll wanted = cluster := by
  refine SortedMap.ext_get? fun key => ?_
  rw [get?_addAll]
  cases hkey : cluster.get? key with
  | some object => rfl
  | none =>
    refine firstOf_eq_none_iff.2 ?_
    rintro e he rfl
    have hthere := h e he
    rw [SortedMap.contains_eq_false_iff.2 hkey] at hthere
    cases hthere

/-! ### Growth -/

/-- Whether a cluster has, apart from one object, all that it had at the start, and besides that only
wanted objects. -/
def Grown (wanted : List (ObjectKey × Json)) (own : ObjectKey) (start cluster : Cluster) : Prop :=
  ∀ key, key ≠ own → cluster.get? key = start.get? key ∨
    start.get? key = none ∧ ∃ body, (key, body) ∈ wanted ∧ cluster.get? key = some body

namespace Grown

variable {wanted more : List (ObjectKey × Json)} {own : ObjectKey} {start cluster' : Cluster}

theorem refl (wanted : List (ObjectKey × Json)) (own : ObjectKey) (start : Cluster) :
    Grown wanted own start start := fun _ _ => .inl rfl

theorem get?_of_some (h : Grown wanted own start cluster) (hkey : key ≠ own)
    (hstart : start.get? key = some body) : cluster.get? key = some body := by
  rcases h key hkey with hsame | ⟨hnone, -⟩
  · rw [hsame, hstart]
  · rw [hnone] at hstart
    cases hstart

/-- The one object that is left out may be another. -/
theorem of_get?_eq (h : Grown wanted own start cluster)
    (hsame : ∀ key, key ≠ own → cluster'.get? key = cluster.get? key) :
    Grown wanted own start cluster' := by
  intro key hkey
  rw [hsame key hkey]
  exact h key hkey

theorem addMissing (h : Grown wanted own start cluster) {e : ObjectKey × Json} (he : e ∈ wanted) :
    Grown wanted own start (cluster.addMissing e.1 e.2) := by
  intro key hkey
  rw [get?_addMissing]
  by_cases hsame : key = e.1
  · subst hsame
    rw [if_pos rfl]
    cases hnow : cluster.get? e.1 with
    | some body =>
      rw [Option.some_or, ← hnow]
      exact h e.1 hkey
    | none =>
      refine .inr ⟨?_, e.2, he, rfl⟩
      cases hstart : start.get? e.1 with
      | none => rfl
      | some body =>
        rw [h.get?_of_some hkey hstart] at hnow
        cases hnow
  · rw [if_neg hsame, Option.or_none]
    exact h key hkey

theorem addAll (h : Grown wanted own start cluster) (hmore : ∀ e ∈ more, e ∈ wanted) :
    Grown wanted own start (cluster.addAll more) := by
  induction more generalizing cluster with
  | nil => exact h
  | cons e more ih =>
    rw [addAll_cons]
    exact ih (h.addMissing (hmore e List.mem_cons_self)) fun f hf =>
      hmore f (List.mem_cons_of_mem _ hf)

end Grown

/-! ### Counting -/

/-- The number of wanted objects that are added. -/
def missing (cluster : Cluster) : List (ObjectKey × Json) → Nat
  | [] => 0
  | e :: wanted =>
    (if cluster.contains e.1 then 0 else 1) + missing (cluster.addMissing e.1 e.2) wanted

theorem missing_append (cluster : Cluster) (wanted others : List (ObjectKey × Json)) :
    cluster.missing (wanted ++ others) =
      cluster.missing wanted + (cluster.addAll wanted).missing others := by
  induction wanted generalizing cluster with
  | nil => simp [missing]
  | cons e wanted ih =>
    rw [List.cons_append, missing, missing, ih, addAll_cons, Nat.add_assoc]

theorem contains_addMissing {k : ObjectKey} (h : cluster.contains k = true) (key : ObjectKey)
    (body : Json) : (cluster.addMissing key body).contains k = true := by
  obtain ⟨object, hobject⟩ := SortedMap.contains_iff.1 h
  rw [SortedMap.contains_iff, get?_addMissing, hobject]
  exact ⟨object, rfl⟩

/-- The number of keys that satisfy `p`. -/
def count (p : ObjectKey → Bool) (cluster : Cluster) : Nat := (cluster.keys.filter p).length

theorem count_addMissing (p : ObjectKey → Bool) (cluster : Cluster) (key : ObjectKey)
    (body : Json) : (cluster.addMissing key body).count p =
      cluster.count p + if !cluster.contains key && p key then 1 else 0 := by
  unfold addMissing
  cases h : SortedMap.contains cluster key with
  | true => simp
  | false =>
    have hperm := (SortedMap.keys_insert_perm h body).filter p
    simp only [count, Bool.false_eq_true, if_false, hperm.length_eq, List.filter_cons]
    cases p key <;> simp

/-- Objects that do not count leave the number as it is. -/
theorem count_addAll_of_not {p : ObjectKey → Bool} {wanted : List (ObjectKey × Json)}
    (h : ∀ e ∈ wanted, p e.1 = false) (cluster : Cluster) :
    (cluster.addAll wanted).count p = cluster.count p := by
  induction wanted generalizing cluster with
  | nil => rfl
  | cons e wanted ih =>
    rw [addAll_cons, ih fun e he => h e (List.mem_cons_of_mem _ he), count_addMissing,
      h e List.mem_cons_self, Bool.and_false]
    rfl

/-- The number grows by the objects that are added, if each that is not there yet counts. -/
theorem count_addAll {p : ObjectKey → Bool} {wanted : List (ObjectKey × Json)}
    {cluster : Cluster} (h : ∀ e ∈ wanted, cluster.contains e.1 = true ∨ p e.1 = true) :
    (cluster.addAll wanted).count p = cluster.count p + cluster.missing wanted := by
  induction wanted generalizing cluster with
  | nil => rfl
  | cons e wanted ih =>
    have hrest : ∀ f ∈ wanted,
        (cluster.addMissing e.1 e.2).contains f.1 = true ∨ p f.1 = true := fun f hf =>
      (h f (List.mem_cons_of_mem _ hf)).imp (fun h => contains_addMissing h e.1 e.2) id
    rw [addAll_cons, ih hrest, count_addMissing, missing]
    cases hc : SortedMap.contains cluster e.1 with
    | true => simp
    | false =>
      rcases h e List.mem_cons_self with ht | hp
      · rw [hc] at ht
        cases ht
      · simp only [hp, Bool.not_false, Bool.and_self, if_true, Bool.false_eq_true, if_false]
        omega

end Cluster

end JobOperator
