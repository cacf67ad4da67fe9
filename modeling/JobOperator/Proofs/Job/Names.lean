import JobOperator.Job.Basic
import JobOperator.Job.Names
import JobOperator.Proofs.Text.Decimal
import JobOperator.Proofs.Text.Split

/-!
Names of pods. The index is what follows the last separator, so two replicas of one job that have
the same name are the same replica. A role is told from more names than those of replicas, as the index
may be any digits.
-/

namespace JobOperator

theorem Role.desiredReplicas_lt (role : Role) : role.desiredReplicas < 2 ^ 31 := by
  have h := role.replicas.toInt_lt
  simp only [desiredReplicas]
  omega

namespace Names

/-- The characters of a pod's name. -/
theorem toList_pod {index : Nat} (h : index < 2 ^ 31) (job role : String) :
    (pod job role (Int32.ofNat index)).toList =
      job.toList ++ separator :: (role.toList ++ separator :: Decimal.ofNat index) := by
  simp only [pod, host, String.toList_ofList, Int32.toInt_ofNat_of_lt h, Decimal.ofInt,
    Int.natAbs_natCast]
  rw [if_neg (by omega)]

theorem separator_notMem_of_isDigits {digits : List Char} (h : Decimal.isDigits digits = true) :
    separator ∉ digits := by
  simp only [Decimal.isDigits, Bool.and_eq_true, List.all_eq_true] at h
  exact fun hmem => absurd (h.2 separator hmem) (by decide)

theorem separator_notMem_ofNat (index : Nat) : separator ∉ Decimal.ofNat index :=
  separator_notMem_of_isDigits (Decimal.isDigits_ofNat index)

/-- What the names of the replicas of a role start with. -/
def stem (job role : String) : String :=
  String.ofList (job.toList ++ separator :: role.toList)

/-- Replicas of any jobs have the same name when their indices are the same and so is what stands
before them. -/
theorem pod_eq_iff {job role job' role' : String} {index index' : Nat} (h : index < 2 ^ 31)
    (h' : index' < 2 ^ 31) :
    pod job role (Int32.ofNat index) = pod job' role' (Int32.ofNat index') ↔
      index = index' ∧ stem job role = stem job' role' := by
  have hpod {job role : String} {index : Nat} (h : index < 2 ^ 31) :
      (pod job role (Int32.ofNat index)).toList =
        (stem job role).toList ++ separator :: Decimal.ofNat index := by
    rw [toList_pod h, stem, String.toList_ofList, List.append_assoc, List.cons_append]
  constructor
  · intro heq
    have hsplit := congrArg (fun name => Text.splitLast? separator name.toList) heq
    simp only [hpod h, hpod h', Text.splitLast?_append (separator_notMem_ofNat _),
      Option.some.injEq, Prod.mk.injEq] at hsplit
    exact ⟨Decimal.ofNat_injective hsplit.2, String.toList_injective hsplit.1⟩
  · rintro ⟨rfl, hstem⟩
    apply String.toList_injective
    rw [hpod h, hpod h, hstem]

/-- Replicas of one job with the same name are the same. -/
theorem pod_injective {job role role' : String} {index index' : Nat} (h : index < 2 ^ 31)
    (h' : index' < 2 ^ 31)
    (heq : pod job role (Int32.ofNat index) = pod job role' (Int32.ofNat index')) :
    role = role' ∧ index = index' := by
  obtain ⟨hindex, hstem⟩ := (pod_eq_iff h h').1 heq
  have hlist := congrArg String.toList hstem
  simp only [stem, String.toList_ofList, List.append_cancel_left_eq, List.cons.injEq] at hlist
  exact ⟨String.toList_injective hlist.2, hindex⟩

/-- The role is found again from a name that ends in digits, unless it has no name. -/
theorem role?_of_digits {job role name : String} {digits : List Char}
    (hdigits : Decimal.isDigits digits = true)
    (hname : name.toList = job.toList ++ separator :: (role.toList ++ separator :: digits)) :
    role? job name = if role = "" then none else some role := by
  have hfirst : Text.afterLeading? [separator]
      (separator :: (role.toList ++ separator :: digits)) =
        some (role.toList ++ separator :: digits) :=
    Text.afterLeading?_append [separator] _
  rw [role?, hname, Text.afterLeading?_append]
  simp only [Option.bind_eq_bind, Option.bind_some, hfirst,
    Text.splitLast?_append (separator_notMem_of_isDigits hdigits), hdigits, Bool.and_true]
  by_cases hrole : role = ""
  · subst hrole
    rfl
  · have hne : role.toList.isEmpty = false := by
      rw [List.isEmpty_eq_false_iff]
      intro hnil
      exact hrole (String.toList_injective hnil)
    rw [hne, if_neg hrole, Bool.not_false, if_pos rfl, String.ofList_toList]

/-- The role is found again from the name of a replica, unless it has no name. -/
theorem role?_pod {index : Nat} (h : index < 2 ^ 31) (job role : String) :
    role? job (pod job role (Int32.ofNat index)) = if role = "" then none else some role :=
  role?_of_digits (Decimal.isDigits_ofNat index) (toList_pod h job role)

/-- The name of a pod tells the role and the index of a replica within a job. An index below zero would
bring a separator of its own, which the role could have brought as well. -/
theorem replica_identified (job role role' : String) {index index' : Int32} (h : 0 ≤ index)
    (h' : 0 ≤ index') :
    (pod job role index = pod job role' index' → role = role' ∧ index = index') ∧
    (role ≠ "" → role? job (pod job role index) = some role) := by
  rw [← Int32.ofNat_toNatClampNeg index h, ← Int32.ofNat_toNatClampNeg index' h']
  refine ⟨fun heq => ?_, fun hrole => ?_⟩
  · obtain ⟨hrole, hindex⟩ :=
      pod_injective index.toNatClampNeg_lt index'.toNatClampNeg_lt heq
    exact ⟨hrole, congrArg Int32.ofNat hindex⟩
  · rw [role?_pod index.toNatClampNeg_lt, if_neg hrole]

/-- A role whose name ends as if in an index. -/
theorem replica_identified_separated :
    (0 : Int32) ≤ 2 ∧ (0 : Int32) ≤ 12 ∧
    (pod "a" "b-1" 2 = pod "a" "b" 12 → "b-1" = "b" ∧ (2 : Int32) = 12) ∧
    role? "a" (pod "a" "b-1" 2) = some "b-1" := by
  have h : (0 : Int32) ≤ 2 := by decide
  have h' : (0 : Int32) ≤ 12 := by decide
  obtain ⟨hinjective, hread⟩ := replica_identified "a" "b-1" "b" h h'
  exact ⟨h, h', hinjective, hread (by decide)⟩

/-! ### Names that are read -/

/-- The name that a replica would have if its index were written with zeros in front. The index may be
of any size here. -/
def numbered (job role : String) (zeros number : Nat) : String :=
  String.ofList ((stem job role).toList ++
    separator :: (List.replicate zeros '0' ++ Decimal.ofNat number))

theorem toList_numbered (job role : String) (zeros number : Nat) :
    (numbered job role zeros number).toList =
      job.toList ++ separator :: (role.toList ++
        separator :: (List.replicate zeros '0' ++ Decimal.ofNat number)) := by
  rw [numbered, stem, String.toList_ofList, String.toList_ofList, List.append_assoc,
    List.cons_append]

/-- A role is read from the names that end in digits, whatever number these are. -/
theorem role?_eq_some_iff {job name role : String} :
    role? job name = some role ↔
      role ≠ "" ∧ ∃ zeros number, name = numbered job role zeros number := by
  constructor
  · intro h
    simp only [role?, Option.bind_eq_bind, Option.bind_eq_some_iff, Text.afterLeading?_eq_some_iff,
      Prod.exists, Text.splitLast?_eq_some_iff, Option.ite_none_right_eq_some, Bool.and_eq_true,
      Bool.not_eq_true', List.isEmpty_eq_false_iff, Option.some.injEq] at h
    obtain ⟨_, hname, _, rfl, before, digits, ⟨rfl, -⟩, ⟨hne, hdigits⟩, rfl⟩ := h
    obtain ⟨zeros, number, rfl⟩ := Decimal.isDigits_iff.1 hdigits
    refine ⟨fun hempty => hne (String.ofList_injective hempty), zeros, number, ?_⟩
    apply String.toList_injective
    rw [hname, toList_numbered, String.toList_ofList]
    rfl
  · rintro ⟨hne, zeros, number, rfl⟩
    have hdigits := Decimal.isDigits_iff.2 ⟨zeros, number, rfl⟩
    rw [role?_of_digits hdigits (toList_numbered job role zeros number), if_neg hne]

theorem numbered_eq_pod_iff {job role : String} {zeros number index : Nat} (h : index < 2 ^ 31) :
    numbered job role zeros number = pod job role (Int32.ofNat index) ↔
      zeros = 0 ∧ number = index := by
  rw [← String.toList_inj, toList_numbered, toList_pod h, List.append_cancel_left_eq,
    List.cons.injEq, and_iff_right rfl, List.append_cancel_left_eq, List.cons.injEq,
    and_iff_right rfl, Decimal.zeros_append_eq_ofNat_iff]

/-- Such a name is that of a replica if there are no zeros in front and the index is in range. -/
theorem exists_numbered_eq_pod_iff {job role : String} {zeros number : Nat} :
    (∃ index : Int32, 0 ≤ index ∧ numbered job role zeros number = pod job role index) ↔
      zeros = 0 ∧ number < 2 ^ 31 := by
  constructor
  · rintro ⟨index, hindex, heq⟩
    have hlt := index.toNatClampNeg_lt
    rw [← Int32.ofNat_toNatClampNeg index hindex, numbered_eq_pod_iff hlt] at heq
    obtain ⟨hzeros, rfl⟩ := heq
    exact ⟨hzeros, hlt⟩
  · rintro ⟨rfl, hnumber⟩
    refine ⟨Int32.ofNat number, ?_, (numbered_eq_pod_iff hnumber).2 ⟨rfl, rfl⟩⟩
    rw [Int32.le_iff_toInt_le, Int32.toInt_ofNat_of_lt hnumber]
    exact Int.natCast_nonneg number

/-- Which names tell a role, and which of these are names of replicas. All that is asked of an index is
that it be made of digits, so it may be written with zeros in front, and may be larger than that of any
replica. -/
theorem role_told_iff (job name role : String) :
    (role? job name = some role ↔
      role ≠ "" ∧ ∃ zeros number, name = numbered job role zeros number) ∧
    ∀ zeros number,
      (∃ index : Int32, 0 ≤ index ∧ numbered job role zeros number = pod job role index) ↔
        zeros = 0 ∧ number < 2 ^ 31 := by
  refine ⟨role?_eq_some_iff, fun zeros number => ?_⟩
  exact exists_numbered_eq_pod_iff

/-- A role is told from names that no replica of it has: here the index has zeros in front, and here it
is one more than the largest. -/
theorem tells_role_of_none :
    (role? "mnist" "mnist-worker-007" = some "worker" ∧
      ¬ ∃ index : Int32, 0 ≤ index ∧ "mnist-worker-007" = pod "mnist" "worker" index) ∧
    (role? "mnist" "mnist-worker-2147483648" = some "worker" ∧
      ¬ ∃ index : Int32, 0 ≤ index ∧ "mnist-worker-2147483648" = pod "mnist" "worker" index) := by
  have hzeros : "mnist-worker-007" = numbered "mnist" "worker" 2 7 := by decide +kernel
  have hlarge : "mnist-worker-2147483648" = numbered "mnist" "worker" 0 (2 ^ 31) := by decide +kernel
  refine ⟨⟨by decide +kernel, ?_⟩, by decide +kernel, ?_⟩
  · rw [hzeros, exists_numbered_eq_pod_iff]
    decide
  · rw [hlarge, exists_numbered_eq_pod_iff]
    decide

end Names

end JobOperator
