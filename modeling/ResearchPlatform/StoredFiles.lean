import ResearchPlatform.UploadRaces

/-!
# Files of live documents

Overlapping uploads and soft deletes over the database and the object store, which
share no transaction. An upload stores its object before its rows commit; a soft
delete removes the object before its update commits. A soft delete is cut at the
lookup, the UPDATE, which waits for the lock of the row, the removal of the object,
and the end of the transaction.
-/

namespace StoredFiles

open Uuid Schema DocumentService Machines UploadRaces

structure Deletion where
  documentId : UUID
  tenantId : UUID
  now : Time
  deleteError : Option StorageFault

/-- Where one soft delete stands, with the document that `get_document` has given it. -/
inductive DeletePhase where
  | waiting
  | found (doc : Document)
  /-- the row is locked -/
  | updated (doc : Document)
  | removed (doc : Document)
  | ended

namespace DeletePhase

def doc : DeletePhase → Option Document
  | found doc | updated doc | removed doc => some doc
  | waiting | ended => none

def locks : DeletePhase → Bool
  | updated _ | removed _ => true
  | waiting | found _ | ended => false

end DeletePhase

structure Service (n m : Nat) where
  uploads : World n
  deletes : Fin m → DeletePhase

inductive Event (n m : Nat) where
  | upload (e : UploadRaces.Event n)
  | getDocument (k : Fin m)
  | update (k : Fin m)
  | remove (k : Fin m)
  | commit (k : Fin m)
  /-- the request fails, at its commit or before, and the session rolls back -/
  | rollback (k : Fin m)

def Service.setDelete {n m : Nat} (s : Service n m) (k : Fin m) (p : DeletePhase) : Service n m :=
  { s with deletes := fun l => if l = k then p else s.deletes l }

def marked (x : Deletion) (db : Database) : Database :=
  { db with documents := db.documents.map (deletedAs x.documentId x.now) }

/-- The best-effort `storage.delete`. -/
def removeFile (doc : Document) (deleteError : Option StorageFault) (objects : ObjectStore) :
    ObjectStore :=
  match doc.storageKey with
  | none => objects
  | some key => if key = "" then objects else objects.afterDelete key deleteError

section Machine
variable {n m : Nat} (sha256 : Sha256) (calls : Fin n → Call) (deletions : Fin m → Deletion)

/-- Another open soft delete has updated the row. -/
def Locked (s : Service n m) (k : Fin m) : Prop :=
  ∃ l, l ≠ k ∧ (s.deletes l).locks = true ∧ (deletions l).documentId = (deletions k).documentId

instance (s : Service n m) (k : Fin m) : Decidable (Locked deletions s k) :=
  inferInstanceAs (Decidable (∃ l, l ≠ k ∧ (s.deletes l).locks = true ∧
    (deletions l).documentId = (deletions k).documentId))

def step (s : Service n m) : Event n m → Option (Service n m)
  | .upload e => (UploadRaces.step sha256 calls s.uploads e).map fun u => { s with uploads := u }
  | .getDocument k => match s.deletes k with
    | .waiting => some (s.setDelete k
        (match getDocument (deletions k).documentId (deletions k).tenantId s.uploads.db with
          | .error _ => .ended
          | .ok doc => .found doc))
    | _ => none
  | .update k => match s.deletes k with
    | .found doc => if Locked deletions s k then none else some (s.setDelete k (.updated doc))
    | _ => none
  | .remove k => match s.deletes k with
    | .updated doc =>
      some ({ s with uploads := { s.uploads with
        objects := removeFile doc (deletions k).deleteError s.uploads.objects } }.setDelete k (.removed doc))
    | _ => none
  | .commit k => match s.deletes k with
    | .removed _ =>
      some ({ s with uploads := { s.uploads with
        db := marked (deletions k) s.uploads.db } }.setDelete k .ended)
    | _ => none
  | .rollback k => match s.deletes k with
    | .ended => none
    | _ => some (s.setDelete k .ended)

def machine : Machine (Service n m) (Event n m) := ⟨step sha256 calls deletions⟩

def start (n m : Nat) (users : List User) (organizations : List Organization) : Service n m :=
  ⟨UploadRaces.start n users organizations, fun _ => .waiting⟩

/-- Every committed document that is not deleted has its object. -/
def Filed (s : Service n m) : Prop :=
  ∀ d ∈ s.uploads.db.documents, d.deletedAt = none →
    ∃ key ∈ d.storageKey, (s.uploads.objects key).isSome = true

instance (s : Service n m) : Decidable (Filed s) :=
  inferInstanceAs (Decidable (∀ d ∈ s.uploads.db.documents, d.deletedAt = none →
    ∃ key ∈ d.storageKey, (s.uploads.objects key).isSome = true))

/-- The removal takes effect. -/
def Deletion.removes (x : Deletion) : Bool := x.deleteError.all StorageFault.carriedOut

/-- The store removes the object while the committed row is still live, or a row is
committed whose column has cut the storage key. -/
def Strands (s : Service n m) : Event n m → Prop
  | .remove k => (deletions k).removes = true ∧
      ∃ d ∈ s.uploads.db.documents, d.id = (deletions k).documentId ∧ d.deletedAt = none
  | .upload (.commit i) => 500 < (keyOf calls i).length
  | _ => False

instance (s : Service n m) : (e : Event n m) → Decidable (Strands calls deletions s e)
  | .remove k => inferInstanceAs (Decidable ((deletions k).removes = true ∧
      ∃ d ∈ s.uploads.db.documents, d.id = (deletions k).documentId ∧ d.deletedAt = none))
  | .upload (.commit i) => inferInstanceAs (Decidable (500 < (keyOf calls i).length))
  | .upload (.byKey _) | .upload (.byContent _) | .upload (.insert _) | .upload (.abort _)
  | .getDocument _ | .update _ | .commit _ | .rollback _ => isFalse id

end Machine

section Runs
variable {n m : Nat} {sha256 : Sha256} {calls : Fin n → Call} {deletions : Fin m → Deletion}
  {s t : Service n m} {w v : World n} {i : Fin n} {k : Fin m}

@[simp] theorem setDelete_self {p : DeletePhase} : (s.setDelete k p).deletes k = p := if_pos rfl

@[simp] theorem setDelete_uploads {p : DeletePhase} : (s.setDelete k p).uploads = s.uploads := rfl

/-! ## A deletion alone -/

/-- A soft delete that nothing interrupts comes to what `softDeleteDocument` says. -/
theorem deletes_alone (waiting : s.deletes k = .waiting) (free : ∀ l, (s.deletes l).locks = false) :
    ∃ es t, (machine sha256 calls deletions).run s es = some t ∧ t.deletes k = .ended ∧
      (t.uploads.db, t.uploads.objects) =
        (softDeleteDocument (deletions k).documentId (deletions k).tenantId (deletions k).now
          (deletions k).deleteError s.uploads.db s.uploads.objects).2 := by
  cases hg : getDocument (deletions k).documentId (deletions k).tenantId s.uploads.db with
  | error e =>
    refine ⟨[.getDocument k], s.setDelete k .ended, by simp [Machine.run, machine, step, waiting, hg],
      if_pos rfl, ?_⟩
    rw [softDeleteDocument, hg]
    rfl
  | ok doc =>
    have unlocked : ¬ Locked deletions (s.setDelete k (.found doc)) k := by
      rintro ⟨l, other, locked, _⟩
      have same : (s.setDelete k (.found doc)).deletes l = s.deletes l := if_neg other
      rw [same, free l] at locked
      cases locked
    refine ⟨[.getDocument k, .update k, .remove k, .commit k], _,
      by simp [Machine.run, machine, step, waiting, hg, unlocked]; rfl, setDelete_self, ?_⟩
    rw [softDeleteDocument, hg]
    rfl

/-! ## What a step of an upload does -/

/-- The steps of an upload before its commit. -/
inductive UploadEffect (sha256 : Sha256) (calls : Fin n → Call) (w : World n) : World n → Prop
  | moved (i : Fin n) (p : Phase) (busy : ∀ d j, w.phase i ≠ .answered d j)
      (quiet : ∀ d j, p ≠ .inserted d j) : UploadEffect sha256 calls w (w.setPhase i p)
  | tried (i : Fin n) (p : Phase) (objects : ObjectStore) (hi : w.phase i = .missed)
      (frame : ∀ key, key ≠ keyOf calls i → objects key = w.objects key)
      (stored : ∀ d j, p = .inserted d j → d = docOf sha256 calls i ∧
        (objects (keyOf calls i)).isSome = true) :
      UploadEffect sha256 calls w ({ w with objects := objects }.setPhase i p)

theorem insertStep_effect (hi : w.phase i = .missed) :
    UploadEffect sha256 calls w (insertStep sha256 calls w i) := by
  have own : storageKey (calls i).upload.tenantId (calls i).outside.docId
      (calls i).upload.filename = keyOf calls i := rfl
  simp only [insertStep, own]
  split
  · exact .tried i _ _ hi (fun key other => ObjectStore.afterPut_of_ne _ _ other) (by simp)
  · rename_i carried
    split
    · refine .tried i _ _ hi (fun key other => ObjectStore.afterPut_of_ne _ _ other) fun d j same => ?_
      cases same
      exact ⟨rfl, by simp [carried, ObjectStore.put]⟩
    · refine .tried i _ _ hi (fun key other => ?_) (by simp)
      rw [ObjectStore.afterDelete_of_ne _ other, ObjectStore.afterPut_of_ne _ _ other]
    · exact .tried i _ _ hi (fun key other => ObjectStore.afterPut_of_ne _ _ other) (by simp)

theorem upload_effect {e : UploadRaces.Event n} (open_ : ∀ i, e ≠ .commit i)
    (hs : (UploadRaces.machine sha256 calls).step w e = some v) : UploadEffect sha256 calls w v := by
  cases e with
  | byKey i =>
    obtain ⟨again, hi, rfl⟩ := step_byKey hs
    refine .moved i _ (by simp [hi]) fun d j => ?_
    rw [keyLookup]
    split <;> simp
  | byContent i =>
    obtain ⟨again, hi, rfl⟩ := step_byContent hs
    refine .moved i _ (by simp [hi]) fun d j => ?_
    rw [contentLookup]
    cases again <;> split <;> simp
  | insert i =>
    obtain ⟨hi, _, rfl⟩ := step_insert hs
    exact insertStep_effect hi
  | commit i => exact absurd rfl (open_ i)
  | abort i =>
    obtain ⟨busy, rfl⟩ := step_abort hs
    exact .moved i _ busy (by simp)

/-! ## Whose object is whose -/

/-- Every document is from one call, which is over; an open insert has its object
stored; an open deletion has found a document of the table; and every object is the
file of a call. -/
structure Inv (sha256 : Sha256) (calls : Fin n → Call) (deletions : Fin m → Deletion)
    (s : Service n m) : Prop where
  rows : ∀ d ∈ s.uploads.db.documents, ∃ i, (∃ c j, s.uploads.phase i = .answered c j) ∧
    d.id = (calls i).outside.docId ∧ d.storageKey = some (keyOf calls i)
  pending : ∀ i d j, s.uploads.phase i = .inserted d j →
    d = docOf sha256 calls i ∧ (s.uploads.objects (keyOf calls i)).isSome = true
  found : ∀ k, ∀ doc ∈ (s.deletes k).doc, doc.id = (deletions k).documentId ∧
    ∃ d ∈ s.uploads.db.documents, d.id = doc.id ∧ d.storageKey = doc.storageKey
  named : ∀ key, (s.uploads.objects key).isSome = true → ∃ i, key = keyOf calls i

/-- No two uploads draw the same `uuid4`. -/
def Distinct (calls : Fin n → Call) : Prop :=
  Function.Injective fun i => (calls i).outside.docId

instance (calls : Fin n → Call) : Decidable (Distinct calls) :=
  inferInstanceAs (Decidable (∀ i k, (calls i).outside.docId = (calls k).outside.docId → i = k))

theorem keyOf_injective (distinct : Distinct calls) : Function.Injective (keyOf calls) :=
  fun _ _ same => distinct (storageKey_ids same).2

/-- A key that the column has cut names no object. -/
theorem cut_key_names_nothing (distinct : Distinct calls) (h : Inv sha256 calls deletions s)
    (long : 500 < (keyOf calls i).length) : s.uploads.objects (varchar 500 (keyOf calls i)) = none := by
  rw [← Option.not_isSome_iff_eq_none]
  intro stored
  obtain ⟨l, same⟩ := h.named _ stored
  have own : i = l := distinct (storageKey_ids ((varchar_storageKey _ _ _).symm.trans same)).2
  have short := length_varchar_le 500 (keyOf calls i)
  rw [same, ← own] at short
  omega

theorem inv_start (users : List User) (organizations : List Organization) :
    Inv sha256 calls deletions (start n m users organizations) where
  rows d hd := by cases hd
  pending i d j hi := by cases hi
  found k doc hk := by cases hk
  named key stored := by cases stored

/-- A document stays the row of its call while another one moves. -/
theorem row_setPhase (h : Inv sha256 calls deletions s) {p : Phase}
    (busy : ∀ d j, s.uploads.phase i ≠ .answered d j) {d : Document}
    (hd : d ∈ s.uploads.db.documents) :
    ∃ l, l ≠ i ∧ (∃ c j, (s.uploads.setPhase i p).phase l = .answered c j) ∧
      d.id = (calls l).outside.docId ∧ d.storageKey = some (keyOf calls l) := by
  obtain ⟨l, ⟨c, j, hl⟩, row⟩ := h.rows d hd
  have other : l ≠ i := by
    rintro rfl
    exact busy c j hl
  exact ⟨l, other, ⟨c, j, by rw [setPhase_of_ne other]; exact hl⟩, row⟩

theorem Filed.stored (filed : Filed s) {d : Document} (hd : d ∈ s.uploads.db.documents)
    (live : d.deletedAt = none) {key : String} (row : d.storageKey = some key) :
    (s.uploads.objects key).isSome = true := by
  obtain ⟨found, hkey, stored⟩ := filed d hd live
  rw [row, Option.mem_some_iff] at hkey
  rwa [hkey]

theorem filed_upload (distinct : Distinct calls) (h : Inv sha256 calls deletions s)
    (filed : Filed s) (effect : UploadEffect sha256 calls s.uploads v) :
    Inv sha256 calls deletions { s with uploads := v } ∧ Filed { s with uploads := v } := by
  cases effect with
  | moved i p busy quiet =>
    refine ⟨⟨fun d hd => ?_, fun l d j hl => ?_, h.found, h.named⟩, filed⟩
    · obtain ⟨l, _, answered, row⟩ := row_setPhase h busy hd
      exact ⟨l, answered, row⟩
    · by_cases same : l = i
      · subst same
        rw [setPhase_self] at hl
        exact absurd hl (quiet d j)
      · rw [setPhase_of_ne same] at hl
        exact h.pending l d j hl
  | tried i p objects hi frame stored =>
    have busy : ∀ d j, s.uploads.phase i ≠ .answered d j := by simp [hi]
    have apart : ∀ l, l ≠ i → objects (keyOf calls l) = s.uploads.objects (keyOf calls l) :=
      fun l other => frame _ fun same => other (keyOf_injective distinct same)
    refine ⟨⟨fun d hd => ?_, fun l d j hl => ?_, h.found, fun key stored => ?_⟩, fun d hd live => ?_⟩
    · obtain ⟨l, _, answered, row⟩ := row_setPhase h busy hd
      exact ⟨l, answered, row⟩
    · by_cases same : l = i
      · subst same
        rw [setPhase_self] at hl
        exact stored d j hl
      · rw [setPhase_of_ne same] at hl
        obtain ⟨own, stored⟩ := h.pending l d j hl
        exact ⟨own, (congrArg Option.isSome (apart l same)).trans stored⟩
    · by_cases own : key = keyOf calls i
      · exact ⟨i, own⟩
      · exact h.named key ((congrArg Option.isSome (frame key own)).symm.trans stored)
    · obtain ⟨l, other, _, _, key⟩ := row_setPhase (p := p) h busy hd
      exact ⟨_, key, (congrArg Option.isSome (apart l other)).trans (filed.stored hd live key)⟩

/-- The commit of an upload adds a document that has its file, unless its key is cut. -/
theorem filed_commit (distinct : Distinct calls) (h : Inv sha256 calls deletions s) (filed : Filed s)
    (hs : (UploadRaces.machine sha256 calls).step s.uploads (.commit i) = some v) :
    (Filed { s with uploads := v } ↔ ¬ 500 < (keyOf calls i).length) ∧
      (Filed { s with uploads := v } → Inv sha256 calls deletions { s with uploads := v }) := by
  obtain ⟨d, j, hi, rfl⟩ := step_commit hs
  obtain ⟨rfl, stored⟩ := h.pending i d j hi
  have busy : ∀ d j, s.uploads.phase i ≠ .answered d j := by simp [hi]
  have whole (short : ¬ 500 < (keyOf calls i).length) : (docOf sha256 calls i).row.storageKey = some (keyOf calls i) :=
    congrArg some (varchar_of_length_le (not_lt.mp short))
  have filed_iff : Filed { s with uploads := { s.uploads with db := { s.uploads.db with
      documents := s.uploads.db.documents ++ [(docOf sha256 calls i).row]
      ingestionJobs := s.uploads.db.ingestionJobs ++ [j.row] } }.setPhase i (.answered (docOf sha256 calls i) j) } ↔
        ¬ 500 < (keyOf calls i).length := by
    constructor
    · intro after long
      obtain ⟨key, cut, found⟩ := after _ (List.mem_append_right _ List.mem_cons_self) rfl
      obtain rfl : varchar 500 (keyOf calls i) = key := Option.some.inj cut
      have nothing : s.uploads.objects (varchar 500 (keyOf calls i)) = none := cut_key_names_nothing distinct h long
      exact absurd (found.symm.trans (congrArg Option.isSome nothing)) (by decide)
    · intro short x hx live
      rcases List.mem_append.mp hx with old | new
      · exact filed x old live
      · obtain rfl := List.mem_singleton.mp new
        exact ⟨_, whole short, stored⟩
  refine ⟨filed_iff, fun after => ⟨fun x hx => ?_, fun l x y hl => ?_, fun k doc hk => ?_, h.named⟩⟩
  · rcases List.mem_append.mp hx with old | new
    · obtain ⟨l, _, answered, row⟩ := row_setPhase h busy old
      exact ⟨l, answered, row⟩
    · obtain rfl := List.mem_singleton.mp new
      exact ⟨i, ⟨_, j, setPhase_self⟩, rfl, whole (filed_iff.mp after)⟩
  · by_cases same : l = i
    · subst same
      rw [setPhase_self] at hl
      cases hl
    · rw [setPhase_of_ne same] at hl
      exact h.pending l x y hl
  · obtain ⟨hid, x, hx, row⟩ := h.found k doc hk
    exact ⟨hid, x, List.mem_append_left _ hx, row⟩

/-! ## What a deletion does -/

theorem keyOf_ne_empty (i : Fin n) : keyOf calls i ≠ "" := by
  intro empty
  have length := congrArg String.length empty
  simp [keyOf, storageKey, String.length_append, length_str] at length

theorem removeFile_eq {doc : Document} {l : Fin n} (row : doc.storageKey = some (keyOf calls l))
    (deleteError : Option StorageFault) (objects : ObjectStore) :
    removeFile doc deleteError objects = objects.afterDelete (keyOf calls l) deleteError := by
  simp only [removeFile, row]
  exact if_neg (keyOf_ne_empty l)

theorem deletedAs_storageKey (documentId : UUID) (now : Time) (d : Document) :
    (deletedAs documentId now d).storageKey = d.storageKey := by
  rw [deletedAs]
  split <;> rfl

/-- A step of a deletion that changes no store. -/
theorem Inv.setDelete (h : Inv sha256 calls deletions s) {p : DeletePhase}
    (found : ∀ doc ∈ p.doc, doc.id = (deletions k).documentId ∧
      ∃ d ∈ s.uploads.db.documents, d.id = doc.id ∧ d.storageKey = doc.storageKey) :
    Inv sha256 calls deletions (s.setDelete k p) := by
  refine ⟨h.rows, h.pending, fun l doc hl => ?_, h.named⟩
  by_cases same : l = k
  · subst same
    rw [setDelete_self] at hl
    exact found doc hl
  · have kept : (s.setDelete k p).deletes l = s.deletes l := if_neg same
    exact h.found l doc (kept ▸ hl)

/-- The document that a deletion has found is the row of one call. -/
theorem found_call (h : Inv sha256 calls deletions s) {doc : Document} (hk : doc ∈ (s.deletes k).doc) :
    ∃ l, (∃ c j, s.uploads.phase l = .answered c j) ∧
      (deletions k).documentId = (calls l).outside.docId ∧
      doc.storageKey = some (keyOf calls l) := by
  obtain ⟨hid, d, hd, same, row⟩ := h.found k doc hk
  obtain ⟨l, answered, id, key⟩ := h.rows d hd
  exact ⟨l, answered, by rw [← hid, ← same, id], by rw [← row, key]⟩

theorem remove_eq (hs : step sha256 calls deletions s (.remove k) = some t) :
    ∃ doc, s.deletes k = .updated doc ∧
      t = { s with uploads := { s.uploads with
        objects := removeFile doc (deletions k).deleteError s.uploads.objects } }.setDelete k (.removed doc) := by
  simp only [step] at hs
  split at hs
  · rename_i doc hk
    cases hs
    exact ⟨doc, hk, rfl⟩
  · cases hs

theorem inv_remove (distinct : Distinct calls) (h : Inv sha256 calls deletions s)
    (hs : step sha256 calls deletions s (.remove k) = some t) : Inv sha256 calls deletions t := by
  obtain ⟨doc, hk, rfl⟩ := remove_eq hs
  have held : doc ∈ (s.deletes k).doc := by rw [hk]; rfl
  obtain ⟨l, ⟨c, j, hl⟩, _, row⟩ := found_call h held
  have removed := removeFile_eq row (deletions k).deleteError s.uploads.objects
  have kept : Inv sha256 calls deletions { s with uploads := { s.uploads with
      objects := removeFile doc (deletions k).deleteError s.uploads.objects } } := by
    refine ⟨h.rows, fun i d b hi => ?_, h.found, fun key stored => ?_⟩
    · have other : keyOf calls i ≠ keyOf calls l := by
        intro same
        obtain rfl := keyOf_injective distinct same
        exact absurd (hi.symm.trans hl) nofun
      obtain ⟨own, stored⟩ := h.pending i d b hi
      refine ⟨own, ?_⟩
      show (removeFile doc _ s.uploads.objects (keyOf calls i)).isSome = true
      rw [removed, ObjectStore.afterDelete_of_ne _ other]
      exact stored
    · by_cases own : key = keyOf calls l
      · exact ⟨l, own⟩
      · refine h.named key (Eq.trans ?_ stored)
        show _ = (removeFile doc _ s.uploads.objects key).isSome
        rw [removed, ObjectStore.afterDelete_of_ne _ own]
  exact kept.setDelete fun found hf => h.found k found (by rwa [hk])

/-- The removal leaves all live documents their files unless it takes effect on the
object of a row that is still live. -/
theorem filed_remove (distinct : Distinct calls) (h : Inv sha256 calls deletions s) (filed : Filed s)
    (hs : step sha256 calls deletions s (.remove k) = some t) :
    Filed t ↔ ¬ Strands calls deletions s (.remove k) := by
  obtain ⟨doc, hk, rfl⟩ := remove_eq hs
  have held : doc ∈ (s.deletes k).doc := by rw [hk]; rfl
  obtain ⟨l, _, target, row⟩ := found_call h held
  have removed := removeFile_eq row (deletions k).deleteError s.uploads.objects
  constructor
  · rintro after ⟨effective, d, hd, id, live⟩
    have carriedOut : (deletions k).deleteError.all StorageFault.carriedOut = true := effective
    obtain ⟨i, _, hid, key⟩ := h.rows d hd
    obtain rfl : i = l := distinct (hid.symm.trans (id.trans target))
    have stored : (removeFile doc _ s.uploads.objects (keyOf calls i)).isSome = true := after.stored hd live key
    rw [removed, ObjectStore.afterDelete, if_pos carriedOut, ObjectStore.delete, if_pos rfl] at stored
    cases stored
  · intro kept d hd live
    obtain ⟨i, _, hid, key⟩ := h.rows d hd
    have stored := filed.stored hd live key
    refine ⟨_, key, ?_⟩
    show (removeFile doc _ s.uploads.objects (keyOf calls i)).isSome = true
    rw [removed]
    by_cases same : i = l
    · subst same
      have idle : ¬ (deletions k).deleteError.all StorageFault.carriedOut = true :=
        fun effective => kept ⟨effective, d, hd, hid.trans target.symm, live⟩
      rw [ObjectStore.afterDelete, if_neg idle]
      exact stored
    · rw [ObjectStore.afterDelete_of_ne _ fun own => same (keyOf_injective distinct own)]
      exact stored

/-- A document that a commit leaves live is as it was. -/
theorem mem_marked {x : Deletion} {db : Database} {d : Document} (hd : d ∈ (marked x db).documents) :
    ∃ old ∈ db.documents, d.id = old.id ∧ d.storageKey = old.storageKey ∧ (d.deletedAt = none → d = old) := by
  obtain ⟨old, hold, rfl⟩ := List.mem_map.mp hd
  refine ⟨old, hold, deletedAs_id _ _ _, deletedAs_storageKey _ _ _, fun live => ?_⟩
  by_cases same : old.id = x.documentId
  · simp [deletedAs, same] at live
  · exact deletedAs_of_ne _ same

theorem filed_marked (h : Inv sha256 calls deletions s) (filed : Filed s) (x : Deletion)
    (hs : t = { s with uploads := { s.uploads with db := marked x s.uploads.db } }) :
    Inv sha256 calls deletions t ∧ Filed t := by
  subst hs
  refine ⟨⟨fun d hd => ?_, h.pending, fun q found hq => ?_, h.named⟩, fun d hd live => ?_⟩
  · obtain ⟨old, hold, id, key, _⟩ := mem_marked hd
    rw [id, key]
    exact h.rows old hold
  · obtain ⟨hid, d, hd, same, key⟩ := h.found q found hq
    exact ⟨hid, _, List.mem_map_of_mem hd, (deletedAs_id _ _ _).trans same, (deletedAs_storageKey _ _ _).trans key⟩
  · obtain ⟨old, hold, _, _, unmarked⟩ := mem_marked hd
    obtain rfl := unmarked live
    exact filed d hold live

theorem doc_ended : ∀ doc ∈ DeletePhase.ended.doc, doc.id = (deletions k).documentId ∧
    ∃ d ∈ s.uploads.db.documents, d.id = doc.id ∧ d.storageKey = doc.storageKey := by
  intro doc held
  cases held

theorem filed_step (distinct : Distinct calls) (h : Inv sha256 calls deletions s)
    (filed : Filed s) {e : Event n m} (hs : (machine sha256 calls deletions).step s e = some t) :
    (Filed t ↔ ¬ Strands calls deletions s e) ∧ (Filed t → Inv sha256 calls deletions t) := by
  have quiet (kept : Inv sha256 calls deletions t ∧ Filed t) (harmless : ¬ Strands calls deletions s e) :
      (Filed t ↔ ¬ Strands calls deletions s e) ∧ (Filed t → Inv sha256 calls deletions t) :=
    ⟨iff_of_true kept.2 harmless, fun _ => kept.1⟩
  simp only [machine] at hs
  cases e with
  | upload e =>
    simp only [step, Option.map_eq_some_iff] at hs
    obtain ⟨v, hv, rfl⟩ := hs
    cases e with
    | commit i => exact filed_commit distinct h filed hv
    | byKey i => exact quiet (filed_upload distinct h filed (upload_effect (e := .byKey i) (by simp) hv)) id
    | byContent i => exact quiet (filed_upload distinct h filed (upload_effect (e := .byContent i) (by simp) hv)) id
    | insert i => exact quiet (filed_upload distinct h filed (upload_effect (e := .insert i) (by simp) hv)) id
    | abort i => exact quiet (filed_upload distinct h filed (upload_effect (e := .abort i) (by simp) hv)) id
  | getDocument k =>
    simp only [step] at hs
    split at hs
    · cases hs
      refine quiet ⟨h.setDelete fun doc hdoc => ?_, filed⟩ id
      split at hdoc
      · cases hdoc
      · rename_i x hg
        cases hdoc
        obtain ⟨hd, hid, _, _⟩ := getDocument_spec hg
        exact ⟨hid, doc, hd, rfl, rfl⟩
    · cases hs
  | update k =>
    simp only [step] at hs
    split at hs
    · rename_i doc hk
      obtain ⟨_, same⟩ := Option.ite_none_left_eq_some.mp hs
      cases same
      exact quiet ⟨h.setDelete fun found hf => h.found k found (by rwa [hk]), filed⟩ id
    · cases hs
  | remove k => exact ⟨filed_remove distinct h filed hs, fun _ => inv_remove distinct h hs⟩
  | commit k =>
    simp only [step] at hs
    split at hs
    · cases hs
      obtain ⟨inv, kept⟩ := filed_marked h filed (deletions k) rfl
      exact quiet ⟨inv.setDelete doc_ended, kept⟩ id
    · cases hs
  | rollback k =>
    simp only [step] at hs
    split at hs
    · cases hs
    · cases hs
      exact quiet ⟨h.setDelete doc_ended, filed⟩ id

/-- Live documents keep their files in exactly those runs in which no storage removal takes
effect on a row that is still live, and no row is committed whose storage key is cut. -/
theorem live_documents_filed_iff (sha256 : Sha256) (calls : Fin n → Call)
    (deletions : Fin m → Deletion) (users : List User) (organizations : List Organization)
    (es : List (Event n m)) (distinct : Distinct calls) :
    (machine sha256 calls deletions).Throughout Filed (start n m users organizations) es ↔
      (machine sha256 calls deletions).EveryStep (fun s e _ => ¬ Strands calls deletions s e)
        (start n m users organizations) es := by
  have first : Filed (start n m users organizations) := fun d hd => by cases hd
  rw [Machine.Throughout, and_iff_right first]
  exact Machine.everyStep_congr (I := fun s => Inv sha256 calls deletions s ∧ Filed s)
    (fun _ _ _ i hs => (filed_step distinct i.1 i.2 hs).1)
    (fun _ _ _ i hs ok => ⟨(filed_step distinct i.1 i.2 hs).2 ok, ok⟩)
    ⟨inv_start users organizations, first⟩

end Runs

namespace Demo

open UploadRaces.Demo

/-- A deletion, and one whose removal the store refuses. -/
def deletion : Deletion := ⟨3, 2, 20, none⟩

def refused : Deletion := ⟨3, 2, 20, some ⟨"", true, false⟩⟩

def upload {n m : Nat} (i : Fin n) : List (Event n m) :=
  [.upload (.byKey i), .upload (.byContent i), .upload (.insert i), .upload (.commit i)]

/-- One upload, and its deletion. -/
def run {n m : Nat} (i : Fin n) (k : Fin m) : List (Event n m) :=
  upload i ++ [.getDocument k, .update k, .remove k, .commit k]

/-- The commit of the deletion fails. -/
def rolledBack {n m : Nat} (i : Fin n) (k : Fin m) : List (Event n m) :=
  upload i ++ [.getDocument k, .update k, .remove k, .rollback k]

def users : List User := [⟨1, "a@example.com", true⟩]

def organizations : List Organization := [⟨2, "A", "a", 0⟩]

end Demo

/-- A deletion whose commit fails leaves its document without a file. -/
theorem rolled_back_deletion_loses_file :
    ¬ (machine UploadRaces.Demo.sha256 UploadRaces.Demo.calls
        (fun _ : Fin 1 => Demo.deletion)).Throughout Filed
      (start 3 1 Demo.users Demo.organizations) (Demo.rolledBack 0 0) := by
  decide +kernel

theorem live_documents_filed_demo :
    (machine UploadRaces.Demo.sha256 UploadRaces.Demo.calls
        (fun _ : Fin 1 => Demo.refused)).Throughout Filed
      (start 3 1 Demo.users Demo.organizations) (Demo.run 0 0) :=
  (live_documents_filed_iff _ _ _ _ _ _ (by decide +kernel)).mpr (by decide +kernel)

end StoredFiles
