import JobOperator.Api.Client
import JobOperator.Proofs.Api.Cluster
import JobOperator.Proofs.Codec.Record
import JobOperator.Proofs.Object.Lawful
import JobOperator.Proofs.Object.Metadata
import JobOperator.Proofs.Store.Program

/-!
What the calls of a client do to a cluster that answers every request, and what they are answered
with.
-/

namespace JobOperator

open Json

namespace Client

/-! ### Reading answers -/

theorem objectOf_reply {code : Nat} (h : ¬ (400 ≤ code ∧ code < 600)) (kind : Kind) (body : Json) :
    objectOf kind (.reply code body) = decodeBody kind.codec body := by
  simp only [objectOf, bodyOf, if_neg h]
  rfl

theorem decodeBody_eq_ok {α : Type} {codec : Codec α} {body : Json} {a : α} :
    decodeBody codec body = .ok a ↔ codec.decode body = .ok a := by
  unfold decodeBody
  cases codec.decode body <;> simp

theorem objectOf?_reply_eq_ok {kind : Kind} {body : Json} {object : Option kind.Object} :
    objectOf? kind (.reply 200 body) = .ok object ↔
      ∃ o, kind.codec.decode body = .ok o ∧ object = some o := by
  simp only [objectOf?, objectOf_reply (show ¬ (400 ≤ 200 ∧ 200 < 600) by decide), decodeBody]
  cases kind.codec.decode body with
  | ok o => simp [eq_comm]
  | error e => simp

theorem decodeList_listBody {kind : Kind} {items : List Json} {objects : List kind.Object} :
    decodeList kind (Cluster.listBody kind items) = .ok objects ↔
      Codec.decodeItems kind.codec.decode items = .ok objects := by
  let itemsField : Field (List kind.Object) := .presentOr "items" [] (.list kind.codec)
  let metaField : Field ListMeta := .defaulted "metadata" {} ListMeta.codec
  let members : List (String × Json) :=
    [("apiVersion", .str kind.apiVersion), ("kind", .str (kind.name ++ "List")),
      ("metadata", .obj []), ("items", .arr items)]
  have hread : itemsField.read (.arr items) = Codec.decodeItems kind.codec.decode items :=
    Field.presentOr_read (by simp)
  have hitems : itemsField.values members = [.arr items] := by
    simp [itemsField, members, Field.values, Field.named, Field.presentOr, Field.zeroed]
  have hmeta : metaField.values members = [.obj []] := by
    simp [metaField, members, Field.values, Field.named, Field.defaulted]
  have hothers : ∀ m ∈ members, (listFields kind).named m.1 = true ∨ m.2.ignoredFault = none := by
    simp [members, listFields, Fields.named, Field.named, Field.presentOr, Field.zeroed,
      Field.defaulted, ignoredFault, skipFault]
  show ((listFields kind).readObject .refused members).map (·.1) = .ok objects ↔ _
  rw [map_eq_ok]
  constructor
  · rintro ⟨⟨objects', listMeta, ⟨⟩⟩, hobject, rfl⟩
    obtain ⟨hfirst, -⟩ := Fields.readMembers_cons.1 (Fields.readObject_eq_ok.1 hobject).2
    rcases Field.readMembers_refused_iff.1 hfirst with ⟨hnone, -⟩ | ⟨v, hv, h⟩
    · cases hitems.symm.trans hnone
    · cases hitems.symm.trans hv
      exact hread.symm.trans h
  · intro h
    have hfirst : itemsField.readMembers .refused 0 none members = .ok objects :=
      Field.readMembers_of_single hitems (hread.trans h)
    have hsecond : metaField.readMembers .refused 0 none members = .ok {} :=
      Field.readMembers_of_single hmeta rfl
    exact ⟨(objects, {}, ()), Fields.readObject_eq_ok.2 ⟨hothers,
      Fields.readMembers_cons.2 ⟨hfirst, Fields.readMembers_cons.2 ⟨hsecond, rfl⟩⟩⟩, rfl⟩

example : decodeList .pod (.obj [("items", .null)]) = .ok [] ∧
    decodeList .pod (.obj [("metadata", .obj [])]) = .error .mismatch :=
  ⟨rfl, rfl⟩

/-! ### Calls -/

/-- The store that a client of a cluster is. -/
abbrev store : Handler Cluster := handler Cluster.exchange

variable {cluster cluster' : Cluster}

theorem store_get {kind : Kind} {ns name : String} {object : Option kind.Object} :
    store (.get kind ns name) cluster = (.ok object, cluster') ↔
      hasPath ns name = true ∧ cluster' = cluster ∧
        (object = none ∧ cluster.get? ⟨kind, ns, name⟩ = none ∨
          ∃ doc o, cluster.get? ⟨kind, ns, name⟩ = some doc ∧ kind.codec.decode doc = .ok o ∧
            object = some o) := by
  simp only [store, handler, perform]
  cases hasPath ns name with
  | false => simp
  | true =>
    simp only [if_true, Cluster.exchange]
    cases cluster.get? ⟨kind, ns, name⟩ with
    | none =>
      constructor
      · intro h
        cases h
        exact ⟨trivial, rfl, .inl ⟨rfl, rfl⟩⟩
      · rintro ⟨-, rfl, ⟨rfl, -⟩ | ⟨doc, o, h, -⟩⟩
        · rfl
        · cases h
    | some doc =>
      constructor
      · intro h
        obtain ⟨hread, rfl⟩ := Prod.mk.inj h
        obtain ⟨o, ho, rfl⟩ := objectOf?_reply_eq_ok.1 (mapError_eq_ok.1 hread)
        exact ⟨trivial, rfl, .inr ⟨doc, o, rfl, ho, rfl⟩⟩
      · rintro ⟨-, rfl, ⟨-, h⟩ | ⟨doc', o, h, ho, rfl⟩⟩
        · cases h
        · cases h
          rw [objectOf?_reply_eq_ok.2 ⟨o, ho, rfl⟩]
          rfl

/-- A new object is kept as it is written, and an object of its name stays as it is. -/
theorem store_create {kind : Kind} (hkind : kind ≠ .job) {ns name : String}
    (hns : ns.toList.all mayStandInPath = true) {object : kind.Object}
    (hname : (kind.metadata object).nameAny = name) (cluster : Cluster) :
    store (.create kind ns object) cluster =
      (if cluster.contains ⟨kind, ns, name⟩ then .error (.alreadyExists kind name)
        else .ok object,
        cluster.addMissing ⟨kind, ns, name⟩ (kind.codec.encode object)) := by
  subst hname
  simp only [store, handler, perform, hns, if_true, Cluster.exchange, Kind.postedName_encode,
    Cluster.addMissing]
  split
  · rfl
  · have hdecode : kind.codec.decode (kind.codec.encode object) = .ok object :=
      (Kind.codec_lawful hkind object).roundTrips
    simp only [objectOf_reply (show ¬ (400 ≤ 201 ∧ 201 < 600) by decide), decodeBody, hdecode]
    rfl

theorem listOf_reply_eq_ok {kind : Kind} {items : List Json} {objects : List kind.Object} :
    listOf kind (.reply 200 (Cluster.listBody kind items)) = .ok objects ↔
      Codec.decodeItems kind.codec.decode items = .ok objects := by
  rw [← decodeList_listBody]
  simp only [listOf, bodyOf, bind, Except.bind, if_neg (show ¬ (400 ≤ 200 ∧ 200 < 600) by decide)]
  cases decodeList kind (Cluster.listBody kind items) <;> simp

/-- The pods that a cluster lists for a job. -/
def listedPods (cluster : Cluster) (ns : String) (job : Job) : List Json :=
  cluster.listed .pod (some ns) (some (.equals appLabel job.name))

theorem store_listPods {job : Job} {ns : String} (hns : job.metadata.namespace = some ns)
    {pods : List Pod} :
    store (.listPods job) cluster = (.ok pods, cluster') ↔
      ns.toList.all mayStandInPath = true ∧ cluster' = cluster ∧
        ∃ all, Codec.decodeItems Pod.codec.decode (listedPods cluster ns job) = .ok all ∧
          pods = all.filter fun pod => job.controls pod.metadata := by
  simp only [store, handler, namespaceOf, hns, perform, podsRequest, Cluster.exchange]
  cases ns.toList.all mayStandInPath with
  | false => simp [Except.map]
  | true =>
    constructor
    · intro h
      obtain ⟨hread, rfl⟩ := Prod.mk.inj h
      obtain ⟨all, hall, rfl⟩ := map_eq_ok.1 hread
      exact ⟨rfl, rfl, all, listOf_reply_eq_ok.1 (mapError_eq_ok.1 hall), rfl⟩
    · rintro ⟨-, rfl, all, hall, rfl⟩
      have hread : listOf .pod (.reply 200 (Cluster.listBody .pod (listedPods cluster' ns job))) =
          .ok all := listOf_reply_eq_ok.2 hall
      simp only [if_true, listedPods] at hread ⊢
      rw [hread]
      rfl

/-- A status is merged into the job, which must still be one after that. -/
theorem store_writeStatus {job : Job} {ns : String} (hns : job.metadata.namespace = some ns)
    (hpath : hasPath ns job.name = true) {doc : Json}
    (hdoc : cluster.get? ⟨.job, ns, job.name⟩ = some doc) :
    (store (.writeStatus job) cluster).2 =
        cluster.insert ⟨.job, ns, job.name⟩ (doc.mergePatch (statusPatch job)) ∧
      ((store (.writeStatus job) cluster).1 = .ok () ↔
        ∃ job', Job.codec.decode (doc.mergePatch (statusPatch job)) = .ok job') := by
  simp only [store, handler, namespaceOf, hns, perform, hpath, if_true, Cluster.exchange, hdoc]
  refine ⟨trivial, ?_⟩
  simp only [objectOf_reply (show ¬ (400 ≤ 200 ∧ 200 < 600) by decide)]
  constructor
  · intro h
    obtain ⟨job', hread, -⟩ := map_eq_ok.1 h
    exact ⟨job', decodeBody_eq_ok.1 (mapError_eq_ok.1 hread)⟩
  · rintro ⟨job', hread⟩
    have hbody : decodeBody Kind.job.codec (doc.mergePatch (statusPatch job)) = .ok job' :=
      decodeBody_eq_ok.2 hread
    rw [hbody]
    rfl

/-- A status that is written is written to a job that is there. -/
theorem of_store_writeStatus {job : Job} (h : (store (.writeStatus job) cluster).1 = .ok ()) :
    ∃ ns doc job', job.metadata.namespace = some ns ∧
      cluster.get? ⟨.job, ns, job.name⟩ = some doc ∧
      Job.codec.decode (doc.mergePatch (statusPatch job)) = .ok job' ∧
      (store (.writeStatus job) cluster).2 =
        cluster.insert ⟨.job, ns, job.name⟩ (doc.mergePatch (statusPatch job)) := by
  cases hns : job.metadata.namespace with
  | none =>
    simp only [store, handler, namespaceOf, hns] at h
    cases h
  | some ns =>
    cases hpath : hasPath ns job.name with
    | false =>
      simp only [store, handler, namespaceOf, hns, perform, hpath] at h
      cases h
    | true =>
      cases hdoc : cluster.get? ⟨.job, ns, job.name⟩ with
      | none =>
        simp only [store, handler, namespaceOf, hns, perform, hpath, if_true, Cluster.exchange,
          hdoc] at h
        cases h
      | some doc =>
        obtain ⟨hcluster, hanswer⟩ := store_writeStatus hns hpath hdoc
        obtain ⟨job', hreads⟩ := hanswer.1 h
        exact ⟨ns, doc, job', rfl, hdoc, hreads, hcluster⟩

/-! ### What a call can do -/

theorem store_get_cluster (kind : Kind) (ns name : String) (cluster : Cluster) :
    (store (.get kind ns name) cluster).2 = cluster := by
  simp only [store, handler, perform]
  split
  · simp only [Cluster.exchange]
    split <;> rfl
  · rfl

theorem store_listPods_cluster (job : Job) (cluster : Cluster) :
    (store (.listPods job) cluster).2 = cluster := by
  simp only [store, handler, perform]
  split
  · rfl
  · split <;> rfl

theorem store_create_cluster (kind : Kind) (ns : String) (object : kind.Object)
    (cluster : Cluster) :
    (store (.create kind ns object) cluster).2 = cluster ∨
      (store (.create kind ns object) cluster).2 =
        cluster.addMissing ⟨kind, ns, (kind.metadata object).nameAny⟩
          (kind.codec.encode object) := by
  simp only [store, handler, perform]
  split
  · refine .inr ?_
    simp only [Cluster.exchange, Kind.postedName_encode, Cluster.addMissing]
    split <;> rfl
  · exact .inl rfl

theorem store_delete_cluster (kind : Kind) (ns name : String) (cluster : Cluster) :
    (store (.delete kind ns name) cluster).2 = cluster ∨
      (store (.delete kind ns name) cluster).2 = cluster.erase ⟨kind, ns, name⟩ := by
  simp only [store, handler, perform]
  split
  · simp only [Cluster.exchange]
    split
    · exact .inr rfl
    · exact .inl rfl
  · exact .inl rfl

theorem store_writeStatus_cluster (job : Job) (cluster : Cluster) :
    (store (.writeStatus job) cluster).2 = cluster ∨
      ∃ ns doc, job.metadata.namespace = some ns ∧
        cluster.get? ⟨.job, ns, job.name⟩ = some doc ∧
        (store (.writeStatus job) cluster).2 =
          cluster.insert ⟨.job, ns, job.name⟩ (doc.mergePatch (statusPatch job)) := by
  cases hns : job.metadata.namespace with
  | none =>
    simp only [store, handler, namespaceOf, hns]
    exact .inl trivial
  | some ns =>
    simp only [store, handler, namespaceOf, hns, perform]
    split
    · simp only [Cluster.exchange]
      cases hdoc : cluster.get? ⟨.job, ns, job.name⟩ with
      | none => exact .inl rfl
      | some doc => exact .inr ⟨ns, doc, rfl, hdoc, rfl⟩
    · exact .inl rfl

end Client

end JobOperator
