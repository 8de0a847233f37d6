import MemKafka.SchemaRegistry

/-!
# Schema ids and versions

`RegistryInv` ties the four indexes of the store together: the two text indexes are inverse to each
other and use the ids `1 .. nextSchemaId - 1`, and each subject numbers distinct texts from 1 on. A
registration only adds, so that what it returned (`Held`) is found by every query for ever.
-/

namespace MemKafka
open Kit

/-- The versions of one subject. -/
structure VersionsInv (store : RegistryStore) (subject : String) (versions : List RegisteredSchema) : Prop where
  ne_nil : versions ≠ []
  distinct : (versions.map (·.schema)).Nodup
  numbered : ∀ (i : Nat) r, versions[i]? = some r →
    r.version = i + 1 ∧ r.subject = subject ∧ store.schemasByText.lookup r.schema = some r.id

structure RegistryInv (store : RegistryStore) : Prop where
  inverse : ∀ schema id, store.schemasByText.lookup schema = some id ↔ store.schemasById.lookup id = some schema
  ids : ∀ id, id ∈ store.schemasById ↔ 1 ≤ id ∧ id < store.nextSchemaId
  count : store.nextSchemaId = store.schemasByText.keys.length + 1
  versions : ∀ subject versions, store.subjects.lookup subject = some versions → VersionsInv store subject versions
  used : ∀ schema id, store.schemasByText.lookup schema = some id → ∃ subject versions, ∃ r ∈ versions,
    store.subjects.lookup subject = some versions ∧ r.schema = schema

/-- The registration of `schema` under `subject` that returned `r` is still in the store. -/
def Held (store : RegistryStore) (subject schema : String) (r : RegisteredSchema) : Prop :=
  ∃ versions, store.subjects.lookup subject = some versions ∧ r ∈ versions ∧ r.schema = schema

/-- What a later store keeps of an earlier one. -/
structure Keeps (store store' : RegistryStore) : Prop where
  texts : ∀ schema id, store.schemasByText.lookup schema = some id → store'.schemasByText.lookup schema = some id
  subjects : ∀ subject versions, store.subjects.lookup subject = some versions →
    ∃ versions', store'.subjects.lookup subject = some versions' ∧ versions <+: versions'

section
variable {store store' : RegistryStore} {subject schema : String} {r : RegisteredSchema}

theorem Held.keeps (h : Held store subject schema r) (hk : Keeps store store') : Held store' subject schema r := by
  obtain ⟨versions, hs, hr, heq⟩ := h
  obtain ⟨versions', hs', hprefix⟩ := hk.subjects subject versions hs
  exact ⟨versions', hs', hprefix.subset hr, heq⟩

namespace VersionsInv
variable {versions : List RegisteredSchema}

theorem mono (h : VersionsInv store subject versions)
    (htexts : ∀ schema id, store.schemasByText.lookup schema = some id → store'.schemasByText.lookup schema = some id) :
    VersionsInv store' subject versions := by
  refine ⟨h.ne_nil, h.distinct, fun i r hi => ?_⟩
  obtain ⟨hv, hs, hid⟩ := h.numbered i r hi
  exact ⟨hv, hs, htexts _ _ hid⟩

theorem of_mem (h : VersionsInv store subject versions) (hr : r ∈ versions) :
    r.subject = subject ∧ store.schemasByText.lookup r.schema = some r.id := by
  obtain ⟨i, hi⟩ := List.getElem?_of_mem hr
  exact (h.numbered i r hi).2

/-- One more version, of a text that the subject does not have. -/
theorem snoc (h : versions = [] ∨ VersionsInv store subject versions) {id : Int}
    (hnew : ∀ v ∈ versions, v.schema ≠ schema) (hid : store.schemasByText.lookup schema = some id) :
    VersionsInv store subject (versions ++ [⟨subject, versions.length + 1, id, schema⟩]) := by
  have hdistinct : (versions.map (·.schema)).Nodup := by
    rcases h with rfl | h
    · exact List.nodup_nil
    · exact h.distinct
  refine ⟨by simp, ?_, ?_⟩
  · rw [List.map_append, List.nodup_append]
    refine ⟨hdistinct, List.nodup_singleton _, ?_⟩
    rintro a ha b hb rfl
    obtain ⟨v, hv, rfl⟩ := List.mem_map.1 ha
    exact hnew v hv (by simpa using hb)
  · intro i r hi
    rcases getElem?_snoc.1 hi with hi | ⟨rfl, rfl⟩
    · rcases h with rfl | h
      · simp at hi
      · exact h.numbered i r hi
    · exact ⟨rfl, rfl, hid⟩

/-- A text is found where it was put. -/
theorem find_schema (h : VersionsInv store subject versions) (hr : r ∈ versions) :
    versions.find? (·.schema = r.schema) = some r :=
  find?_of_inj (fun _ hv heq => List.inj_on_of_nodup_map h.distinct hv hr heq) hr

/-- Versions are told apart by their numbers. -/
theorem eq_of_version (h : VersionsInv store subject versions) {a b : RegisteredSchema} (ha : a ∈ versions)
    (hb : b ∈ versions) (heq : a.version = b.version) : a = b := by
  obtain ⟨i, hi⟩ := List.getElem?_of_mem ha
  obtain ⟨j, hj⟩ := List.getElem?_of_mem hb
  have hva := (h.numbered i a hi).1
  have hvb := (h.numbered j b hj).1
  obtain rfl : i = j := by omega
  exact Option.some.inj (hi.symm.trans hj)

theorem find_version (h : VersionsInv store subject versions) (hr : r ∈ versions) :
    versions.find? (·.version = r.version) = some r :=
  find?_of_inj (fun _ hv heq => h.eq_of_version hv hr heq) hr

theorem map_version (h : VersionsInv store subject versions) :
    versions.map (·.version) = (List.range versions.length).map fun i : Nat => (i : Int) + 1 := by
  refine List.ext_getElem? fun i => ?_
  rw [List.getElem?_map, List.getElem?_map]
  by_cases hi : i < versions.length
  · have hv := List.getElem?_eq_getElem hi
    rw [hv, List.getElem?_range hi, Option.map_some, Option.map_some, (h.numbered i _ hv).1]
  · rw [List.getElem?_eq_none (by omega), List.getElem?_eq_none (by simp; omega)]
    rfl

/-- The last version has the greatest number. -/
theorem getLast (h : VersionsInv store subject versions) :
    ∃ r ∈ versions, versions.getLast? = some r ∧ ∀ v ∈ versions, v.version ≤ r.version := by
  have hlast := List.getLast?_eq_getLast_of_ne_nil h.ne_nil
  refine ⟨versions.getLast h.ne_nil, List.getLast_mem h.ne_nil, hlast, ?_⟩
  intro v hv
  obtain ⟨i, hi⟩ := List.getElem?_of_mem hv
  have hlt := (List.getElem?_eq_some_iff.1 hi).1
  rw [List.getLast?_eq_getElem?] at hlast
  have h1 := (h.numbered i v hi).1
  have h2 := (h.numbered _ _ hlast).1
  omega

end VersionsInv

/-! ### The invariant -/

theorem RegistryInv.default : RegistryInv .default where
  inverse schema id := ⟨fun h => (by cases h), fun h => (by cases h)⟩
  ids id := by
    constructor
    · intro h; exact absurd h (AList.notMem_empty id)
    · rintro ⟨h1, h2⟩; exact absurd h1 (not_le.2 h2)
  count := rfl
  versions subject versions h := by cases h
  used schema id h := by cases h

namespace RegistryInv

/-- The versions a registration finds under its subject. -/
theorem known (inv : RegistryInv store) (subject : String) :
    (store.subjects.lookup subject).getD [] = [] ∨
      VersionsInv store subject ((store.subjects.lookup subject).getD []) := by
  cases hs : store.subjects.lookup subject with
  | none => exact .inl rfl
  | some versions => exact .inr (inv.versions subject versions hs)

/-- No subject has more versions than there are texts. -/
theorem versions_length (inv : RegistryInv store) {versions : List RegisteredSchema}
    (hs : store.subjects.lookup subject = some versions) : versions.length ≤ store.schemasByText.keys.length := by
  have hv := inv.versions subject versions hs
  have hsub : versions.map (·.schema) ⊆ store.schemasByText.keys := by
    intro schema hschema
    obtain ⟨r, hr, rfl⟩ := List.mem_map.1 hschema
    exact AList.mem_keys.1 (mem_iff_lookup.2 ⟨r.id, (hv.of_mem hr).2⟩)
  simpa using (hv.distinct.subperm hsub).length_le

/-- The two text indexes after a text got the next id. -/
theorem insert_text (inv : RegistryInv store) (hnew : store.schemasByText.lookup schema = none) (schema' : String)
    (id : Int) : (store.schemasByText.insert schema store.nextSchemaId).lookup schema' = some id ↔
      (store.schemasById.insert store.nextSchemaId schema).lookup id = some schema' := by
  have hfree : store.schemasById.lookup store.nextSchemaId = none := by
    rw [AList.lookup_eq_none, inv.ids]; omega
  rw [lookup_insert_eq, lookup_insert_eq]
  by_cases hs : schema' = schema
  · subst hs
    rw [if_pos rfl]
    by_cases hid : id = store.nextSchemaId
    · subst hid; simp
    · rw [if_neg hid, ← inv.inverse, hnew]
      exact ⟨fun h => absurd (Option.some.inj h).symm hid, fun h => (by cases h)⟩
  · rw [if_neg hs, inv.inverse]
    by_cases hid : id = store.nextSchemaId
    · subst hid
      rw [hfree, if_pos rfl]
      exact ⟨fun h => (by cases h), fun h => absurd (Option.some.inj h).symm hs⟩
    · rw [if_neg hid]

/-- The versions of every subject after one of them got a new version. -/
theorem insert_versions (inv : RegistryInv store)
    (htexts : ∀ schema id, store.schemasByText.lookup schema = some id → store'.schemasByText.lookup schema = some id)
    {versions : List RegisteredSchema} (hv : VersionsInv store' subject versions) {subject' : String}
    {versions' : List RegisteredSchema} (hs : (store.subjects.insert subject versions).lookup subject' = some versions') :
    VersionsInv store' subject' versions' := by
  rcases lookup_of_insert hs with ⟨rfl, rfl⟩ | hs
  · exact hv
  · exact (inv.versions subject' versions' hs).mono htexts

end RegistryInv

theorem prefix_getD {versions : List RegisteredSchema} (hs : store.subjects.lookup subject = some versions)
    (r : RegisteredSchema) : versions <+: (store.subjects.lookup subject).getD [] ++ [r] := by
  rw [hs]; exact List.prefix_append _ _

variable (store subject) in
/-- A subject that grew by one version. -/
theorem subjects_kept (r : RegisteredSchema) : ∀ subject' versions', store.subjects.lookup subject' = some versions' →
    ∃ versions, (store.subjects.insert subject ((store.subjects.lookup subject).getD [] ++ [r])).lookup subject' =
      some versions ∧ versions' <+: versions := by
  intro subject' versions' hs
  rw [lookup_insert_eq]
  split
  · subst subject'
    exact ⟨_, rfl, prefix_getD hs r⟩
  · exact ⟨versions', hs, List.prefix_rfl⟩

/-- What a registration leaves. -/
structure RegisterOk (store : RegistryStore) (subject schema : String) (r : RegisteredSchema)
    (store' : RegistryStore) : Prop where
  inv : RegistryInv store'
  keeps : Keeps store store'
  held : Held store' subject schema r
  texts : ∀ text ∈ store'.schemasByText, text ∈ store.schemasByText ∨ text = schema

theorem register_ok (inv : RegistryInv store) (h : Registration store subject schema r store') :
    RegisterOk store subject schema r store' := by
  cases h with
  | @known versions _ hs hf =>
    refine ⟨inv, ⟨fun _ _ h => h, fun _ versions h => ⟨versions, h, List.prefix_rfl⟩⟩, ?_, fun _ h => .inl h⟩
    exact ⟨versions, hs, List.mem_of_find?_eq_some hf, by simpa using List.find?_some hf⟩
  | @shared id hnew hid =>
    have hv := VersionsInv.snoc (inv.known subject) hnew hid
    have hkept := subjects_kept store subject
      ⟨subject, ((store.subjects.lookup subject).getD []).length + 1, id, schema⟩
    refine ⟨⟨inv.inverse, inv.ids, inv.count, ?_, ?_⟩, ⟨fun _ _ h => h, hkept⟩, ?_, fun _ h => .inl h⟩
    · intro subject' versions' hs
      refine inv.insert_versions ?_ ?_ hs
      · exact fun _ _ h => h
      · exact hv.mono fun _ _ h => h
    · intro schema' id' hid'
      obtain ⟨subject', versions', r', hr', hs', hschema'⟩ := inv.used schema' id' hid'
      obtain ⟨versions, hs, hprefix⟩ := hkept subject' versions' hs'
      exact ⟨subject', versions, r', hprefix.subset hr', hs, hschema'⟩
    · exact ⟨_, by rw [lookup_insert_eq, if_pos rfl], by simp, rfl⟩
  | fresh hnew hid =>
    set r : RegisteredSchema :=
      ⟨subject, ((store.subjects.lookup subject).getD []).length + 1, store.nextSchemaId, schema⟩
    have htexts : ∀ schema' id', store.schemasByText.lookup schema' = some id' →
        (store.schemasByText.insert schema store.nextSchemaId).lookup schema' = some id' := by
      intro schema' id' h
      rw [lookup_insert_eq, if_neg]
      · exact h
      · rintro rfl; rw [hid] at h; cases h
    have hpos : 1 ≤ store.nextSchemaId := by rw [inv.count]; omega
    have hkept := subjects_kept store subject r
    refine ⟨⟨inv.insert_text hid, ?_, ?_, ?_, ?_⟩, ⟨htexts, hkept⟩, ?_, ?_⟩
    · intro id
      rw [AList.mem_insert, inv.ids]
      show id = store.nextSchemaId ∨ _ ↔ 1 ≤ id ∧ id < store.nextSchemaId + 1
      omega
    · have hfree : schema ∉ store.schemasByText.keys := fun h => AList.lookup_eq_none.1 hid (AList.mem_keys.2 h)
      show store.nextSchemaId + 1 = ((store.schemasByText.insert schema store.nextSchemaId).keys.length : Int) + 1
      rw [AList.keys_insert, List.length_cons, List.erase_of_not_mem hfree, inv.count]
      push_cast; rfl
    · intro subject' versions' hs
      refine inv.insert_versions htexts ?_ hs
      refine VersionsInv.snoc ((inv.known subject).imp_right fun h => h.mono htexts) hnew ?_
      show (store.schemasByText.insert schema store.nextSchemaId).lookup schema = some store.nextSchemaId
      rw [lookup_insert_eq, if_pos rfl]
    · intro schema' id' hid'
      have hid' : (store.schemasByText.insert schema store.nextSchemaId).lookup schema' = some id' := hid'
      rw [lookup_insert_eq] at hid'
      split at hid'
      · subst schema'
        refine ⟨subject, (store.subjects.lookup subject).getD [] ++ [r], r, by simp, ?_, rfl⟩
        rw [lookup_insert_eq, if_pos rfl]
      · obtain ⟨subject', versions', r', hr', hs', hschema'⟩ := inv.used schema' id' hid'
        obtain ⟨versions, hs, hprefix⟩ := hkept subject' versions' hs'
        exact ⟨subject', versions, r', hprefix.subset hr', hs, hschema'⟩
    · exact ⟨_, by rw [lookup_insert_eq, if_pos rfl], by simp, rfl⟩
    · intro text htext
      exact ((AList.mem_insert _).1 htext).symm

/-! ### The queries -/

namespace Held

theorem versions (h : Held store subject schema r) (inv : RegistryInv store) :
    ∃ versions, store.subjects.lookup subject = some versions ∧ VersionsInv store subject versions ∧ r ∈ versions ∧
      r.schema = schema := by
  obtain ⟨versions, hs, hr, heq⟩ := h
  exact ⟨versions, hs, inv.versions subject versions hs, hr, heq⟩

theorem id_eq (h : Held store subject schema r) (inv : RegistryInv store) :
    store.schemasByText.lookup schema = some r.id := by
  obtain ⟨versions, -, hv, hr, rfl⟩ := h.versions inv
  exact (hv.of_mem hr).2

/-- Registering once more. -/
theorem register (h : Held store subject schema r) (inv : RegistryInv store) :
    store.register subject schema = some (r, store) := by
  obtain ⟨versions, hs, hv, hr, rfl⟩ := h.versions inv
  rw [RegistryStore.register, hs, Option.bind_some, hv.find_schema hr]

theorem lookup (h : Held store subject schema r) (inv : RegistryInv store) :
    store.lookup subject schema = .ok r := by
  obtain ⟨versions, hs, hv, hr, rfl⟩ := h.versions inv
  simp only [RegistryStore.lookup, hs, hv.find_schema hr]

theorem version (h : Held store subject schema r) (inv : RegistryInv store) :
    store.version subject r.version = .ok r := by
  obtain ⟨versions, hs, hv, hr, rfl⟩ := h.versions inv
  simp only [RegistryStore.version, hs, hv.find_version hr]

theorem schemaById (h : Held store subject schema r) (inv : RegistryInv store) :
    store.schemaById r.id = .ok schema := by
  have hid := (inv.inverse schema r.id).1 (h.id_eq inv)
  simp only [RegistryStore.schemaById, hid]

end Held

/-- Two registrations share their id exactly when they share their text. -/
theorem Held.id_inj (inv : RegistryInv store) {subject' schema' : String} {r' : RegisteredSchema}
    (h : Held store subject schema r) (h' : Held store subject' schema' r') : r.id = r'.id ↔ schema = schema' := by
  constructor
  · intro heq
    have h1 := (inv.inverse schema r.id).1 (h.id_eq inv)
    have h2 := (inv.inverse schema' r'.id).1 (h'.id_eq inv)
    rw [heq, h2] at h1
    exact (Option.some.inj h1).symm
  · rintro rfl
    exact Option.some.inj ((h.id_eq inv).symm.trans (h'.id_eq inv))

theorem RegistryInv.latest (inv : RegistryInv store) {versions : List RegisteredSchema}
    (hs : store.subjects.lookup subject = some versions) :
    ∃ r ∈ versions, store.latest subject = .ok r ∧ ∀ v ∈ versions, v.version ≤ r.version := by
  obtain ⟨r, hr, hlast, hmax⟩ := (inv.versions subject versions hs).getLast
  exact ⟨r, hr, by simp only [RegistryStore.latest, hs, hlast], hmax⟩

/-- The versions of one id: each of them, one for a subject at most, in the order of the subjects. -/
theorem RegistryInv.schemaVersionsById (inv : RegistryInv store) {id : Int} (hid : id ∈ store.schemasById) :
    ∃ found, store.schemaVersionsById id = .ok found ∧ found ≠ [] ∧
      found.Pairwise (fun a b => a.subject < b.subject) ∧
      ∀ r, r ∈ found ↔ r.id = id ∧ ∃ versions, store.subjects.lookup r.subject = some versions ∧ r ∈ versions := by
  have hmem : ∀ r, (r ∈ (sortedEntries store.subjects).flatMap fun e => e.2.filter (·.id = id)) ↔
      r.id = id ∧ ∃ versions, store.subjects.lookup r.subject = some versions ∧ r ∈ versions := by
    intro r
    simp only [List.mem_flatMap, List.mem_filter, decide_eq_true_eq, Prod.exists]
    constructor
    · rintro ⟨subject, versions, he, hr, hrid⟩
      have hs := mem_sortedEntries.1 he
      obtain ⟨rfl, -⟩ := (inv.versions subject versions hs).of_mem hr
      exact ⟨hrid, versions, hs, hr⟩
    · rintro ⟨hrid, versions, hs, hr⟩
      exact ⟨r.subject, versions, mem_sortedEntries.2 hs, hr, hrid⟩
  refine ⟨_, if_neg (not_not.2 hid), ?_, ?_, hmem⟩
  · obtain ⟨schema, hschema⟩ := mem_iff_lookup.1 hid
    have htext := (inv.inverse schema id).2 hschema
    obtain ⟨subject, versions, r, hr, hs, rfl⟩ := inv.used schema id htext
    obtain ⟨rfl, hr'⟩ := (inv.versions subject versions hs).of_mem hr
    exact List.ne_nil_of_mem ((hmem r).2 ⟨Option.some.inj (hr'.symm.trans htext), versions, hs, hr⟩)
  · refine List.pairwise_flatMap.2 ⟨?_, ?_⟩
    · -- within one subject: two versions with one id have one text
      rintro ⟨subject, versions⟩ he
      have hv := inv.versions subject versions (mem_sortedEntries.1 he)
      have hnodup : versions.Nodup := List.Nodup.of_map _ hv.distinct
      refine List.Pairwise.imp_of_mem ?_ (hnodup.filter _)
      intro a b ha hb hne
      simp only [List.mem_filter, decide_eq_true_eq] at ha hb
      refine absurd (List.inj_on_of_nodup_map hv.distinct ha.1 hb.1 ?_) hne
      have h1 := (inv.inverse _ _).1 (hv.of_mem ha.1).2
      have h2 := (inv.inverse _ _).1 (hv.of_mem hb.1).2
      rw [ha.2] at h1
      rw [hb.2, h1] at h2
      exact Option.some.inj h2
    · refine List.Pairwise.imp_of_mem ?_ (pairwise_sortedEntries store.subjects)
      rintro ⟨s₁, v₁⟩ ⟨s₂, v₂⟩ h₁ h₂ hlt a ha b hb
      obtain ⟨rfl, -⟩ := (inv.versions _ _ (mem_sortedEntries.1 h₁)).of_mem (List.mem_of_mem_filter ha)
      obtain ⟨rfl, -⟩ := (inv.versions _ _ (mem_sortedEntries.1 h₂)).of_mem (List.mem_of_mem_filter hb)
      exact hlt

end

/-! ### Runs -/

abbrev RegistryEvent := Event RegistryStore (String × String) RegisteredSchema

/-- Every registration of a run is held at its end, and every text of the store was registered. -/
theorem registry_history {tr : List RegistryEvent} {s : RegistryStore} (h : registry.Run tr s) :
    RegistryInv s ∧ (∀ e ∈ tr, Held s e.label.1 e.label.2 e.out) ∧
      ∀ text ∈ s.schemasByText, text ∈ tr.map (·.label.2) := by
  refine Machine.Run.induction (M := registry) (P := fun tr s => RegistryInv s ∧
    (∀ e ∈ tr, Held s e.label.1 e.label.2 e.out) ∧ ∀ text ∈ s.schemasByText, text ∈ tr.map (·.label.2))
    ⟨.default, by simp, fun text h => absurd h (AList.notMem_empty text)⟩ ?_ h
  rintro tr e - ⟨inv, hheld, htexts⟩ he
  obtain ⟨inv', hkeeps, hnew, htexts'⟩ := register_ok inv (register_cases he)
  refine ⟨inv', ?_, ?_⟩
  · intro f hf
    rcases List.mem_append.1 hf with hf | hf
    · exact (hheld f hf).keeps hkeeps
    · obtain rfl := List.mem_singleton.1 hf
      exact hnew
  · intro text htext
    rw [List.map_append, List.mem_append]
    exact (htexts' text htext).imp (htexts text) (by rintro rfl; simp)

/-- While the texts fit into the id space no registration panics. -/
theorem registry_total (calls : List (String × String)) (h : ((calls.map Prod.snd).dedup.length : Int) < i32Max - 1) :
    ∃ tr s, registry.exec .default calls = some (tr, s) := by
  refine Machine.exec_total (M := registry) _
    (P := fun s => RegistryInv s ∧ ∀ text ∈ s.schemasByText, text ∈ calls.map Prod.snd) ?_
    ⟨.default, fun text h => absurd h (AList.notMem_empty text)⟩
  rintro s l hl ⟨inv, htexts⟩
  have hkeys : s.schemasByText.keys.length ≤ (calls.map Prod.snd).dedup.length := by
    refine (List.Nodup.subperm s.schemasByText.keys_nodup ?_).length_le
    intro text htext
    exact List.mem_dedup.2 (htexts text (AList.mem_keys.2 htext))
  have hcount := inv.count
  have hregister : ∃ r s', s.register l.1 l.2 = some (r, s') := by
    refine register_isSome (by omega) (by omega) fun versions hs => ?_
    have := inv.versions_length hs
    omega
  obtain ⟨r, s', hr⟩ := hregister
  obtain ⟨inv', -, -, htexts'⟩ := register_ok inv (register_cases hr)
  refine ⟨r, s', hr, inv', ?_⟩
  intro text htext
  rcases htexts' text htext with hold | rfl
  · exact htexts text hold
  · exact List.mem_map_of_mem hl

/-- Schema identity. Every sequence of registrations with fewer than `i32::MAX - 1` distinct texts runs to its
end. The text indexes are then inverse bijections between the registered texts and the ids from 1 up to
the next one; each subject numbers distinct texts 1, 2, ..; every registration made so far is
answered the same way if it is repeated, and found by every query; two of them share their id exactly when
they share their text. -/
theorem registrations_keep_their_identity (calls : List (String × String))
    (hfew : ((calls.map Prod.snd).dedup.length : Int) < i32Max - 1) :
    ∃ tr s, registry.exec .default calls = some (tr, s) ∧
      (∀ schema id, s.schemasByText.lookup schema = some id ↔ s.schemasById.lookup id = some schema) ∧
      (∀ schema, schema ∈ s.schemasByText ↔ schema ∈ calls.map Prod.snd) ∧
      (∀ id, id ∈ s.schemasById ↔ 1 ≤ id ∧ id ≤ s.nextSchemaId - 1) ∧
      (∀ subject versions, s.subjects.lookup subject = some versions →
        versions.map (·.version) = ((List.range versions.length).map fun i : Nat => (i : Int) + 1) ∧
        (versions.map (·.schema)).Nodup ∧
        (∀ r ∈ versions, r.subject = subject ∧ s.schemasByText.lookup r.schema = some r.id) ∧
        ∃ r ∈ versions, s.latest subject = .ok r ∧ ∀ v ∈ versions, v.version ≤ r.version) ∧
      (∀ e ∈ tr, e.out.subject = e.label.1 ∧ e.out.schema = e.label.2 ∧
        s.register e.label.1 e.label.2 = some (e.out, s) ∧ s.schemaById e.out.id = .ok e.label.2 ∧
        s.lookup e.label.1 e.label.2 = .ok e.out ∧ s.version e.label.1 e.out.version = .ok e.out) ∧
      (∀ e ∈ tr, ∀ f ∈ tr, e.out.id = f.out.id ↔ e.label.2 = f.label.2) ∧
      ∀ id ∈ s.schemasById, ∃ found, s.schemaVersionsById id = .ok found ∧ found ≠ [] ∧
        found.Pairwise (fun a b => a.subject < b.subject) ∧
        ∀ r, r ∈ found ↔ r.id = id ∧ ∃ versions, s.subjects.lookup r.subject = some versions ∧ r ∈ versions := by
  obtain ⟨tr, s, hx⟩ := registry_total calls hfew
  obtain ⟨hrun, hlabels⟩ := Machine.exec_path hx
  obtain ⟨inv, hheld, htexts⟩ := registry_history hrun
  have hcalls : tr.map (·.label.2) = calls.map Prod.snd := by
    rw [← hlabels, List.map_map]; rfl
  refine ⟨tr, s, hx, inv.inverse, ?_, ?_, ?_, ?_, ?_, fun id hid => inv.schemaVersionsById hid⟩
  · intro schema
    refine ⟨fun h => hcalls ▸ htexts schema h, fun h => ?_⟩
    obtain ⟨e, he, rfl⟩ := List.mem_map.1 (hcalls.symm ▸ h)
    exact mem_iff_lookup.2 ⟨_, (hheld e he).id_eq inv⟩
  · intro id
    rw [inv.ids, Int.le_sub_one_iff]
  · intro subject versions hs
    have hv := inv.versions subject versions hs
    exact ⟨hv.map_version, hv.distinct, fun r hr => hv.of_mem hr, inv.latest hs⟩
  · intro e he
    have h := hheld e he
    obtain ⟨versions, -, hv, hr, hschema⟩ := h.versions inv
    exact ⟨(hv.of_mem hr).1, hschema, h.register inv, h.schemaById inv, h.lookup inv, h.version inv⟩
  · exact fun e he f hf => (hheld e he).id_inj inv (hheld f hf)

theorem registrations_keep_their_identity_shared_text :
    ∃ tr s, registry.exec .default [("a", "x"), ("a", "y"), ("b", "x"), ("a", "x")] = some (tr, s) ∧
      tr.map (·.out) = [⟨"a", 1, 1, "x"⟩, ⟨"a", 2, 2, "y"⟩, ⟨"b", 1, 1, "x"⟩, ⟨"a", 1, 1, "x"⟩] ∧
      s.schemaById 1 = .ok "x" := by
  have hout : ((registry.exec .default [("a", "x"), ("a", "y"), ("b", "x"), ("a", "x")]).map fun r => r.1.map (·.out)) =
      some [⟨"a", 1, 1, "x"⟩, ⟨"a", 2, 2, "y"⟩, ⟨"b", 1, 1, "x"⟩, ⟨"a", 1, 1, "x"⟩] := by decide +kernel
  obtain ⟨tr, s, hx, -, -, -, -, hkept, -⟩ :=
    registrations_keep_their_identity [("a", "x"), ("a", "y"), ("b", "x"), ("a", "x")] (by decide +kernel)
  rw [hx, Option.map_some, Option.some.injEq] at hout
  have hlabels := (Machine.exec_path hx).2
  refine ⟨tr, s, hx, hout, ?_⟩
  match tr with
  | [] => cases hout
  | e :: tr =>
    have hid : e.out = ⟨"a", 1, 1, "x"⟩ := (List.cons.inj hout).1
    have hlabel : e.label = ("a", "x") := (List.cons.inj hlabels).1
    obtain ⟨-, -, -, hquery, -⟩ := hkept e (by simp)
    rwa [hid, hlabel] at hquery

end MemKafka
