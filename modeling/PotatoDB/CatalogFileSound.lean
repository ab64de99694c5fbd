import PotatoDB.CatalogFile
import PotatoDB.Storage

/-!
# What the catalog's document holds

The dirty flag is cleared before the put, and an edit of a field sets no flag. A history
records whether a change was lost so; while none is, a flush that returns has written
everything, and a transaction leaves the document alone.
-/

namespace PotatoDB

open Oplog

structure History where
  file : CatalogFile
  /-- The catalog as of BEGIN, in a transaction. -/
  begun : Option CatalogData
  /-- A change that no flag remembers. -/
  unsaved : Bool

/-- Whether a change is forgotten: a put that fails, or an edit that no save follows. -/
def CatalogCall.leavesUnsaved (h : History) : CatalogCall → Bool
  | mutate m => h.unsaved && !(h.file.mutate m).dirty
  | save => h.unsaved && !h.file.save.dirty
  | edit _ | rollbackTo _ => h.unsaved || !h.file.dirty
  | flushIfDirty put | begin put => if h.file.dirty then !put.toBool else h.unsaved
  | commit put | rollback _ put => if h.file.inTransaction then !put.toBool else h.unsaved
  | rollbackStops _ => h.unsaved
  | restart => false

def CatalogCall.begins (h : History) : CatalogCall → Option CatalogData
  | begin _ => if h.file.inTransaction then h.begun else some h.file.data
  | commit _ | rollback .. | restart => none
  | _ => h.begun

def CatalogCall.apply (h : History) (call : CatalogCall) : History :=
  ⟨(call.run h.file).2, call.begins h, call.leavesUnsaved h⟩

instance : Machine History CatalogCall := ⟨CatalogCall.apply⟩

def History.start (stored : Option CatalogData) : History := ⟨.load stored, none, false⟩

/-- What the call must not meet: a flush with nothing to write while a change is forgotten, a BEGIN whose
flush fails, a ROLLBACK that stops halfway. -/
def CatalogCall.Safe (h : History) : CatalogCall → Prop
  | flushIfDirty _ => h.file.inTransaction ∨ h.file.dirty ∨ h.unsaved = false
  | begin put => h.file.inTransaction ∨ if h.file.dirty then put = .ok () else h.unsaved = false
  | rollbackStops _ => h.file.inTransaction = false
  | _ => True

instance CatalogCall.decidableSafe (h : History) : (call : CatalogCall) → Decidable (call.Safe h)
  | mutate _ | save | edit _ | rollbackTo _ | commit _ | rollback .. | restart => isTrue trivial
  | flushIfDirty _ => inferInstanceAs (Decidable (_ ∨ _ ∨ _))
  | begin put => inferInstanceAs (Decidable (_ ∨ if h.file.dirty then put = .ok () else h.unsaved = false))
  | rollbackStops _ => inferInstanceAs (Decidable (_ = _))

/-- The call keeps the document: what it flushes outside a transaction is there, and the catalog as of BEGIN
stays until COMMIT or ROLLBACK. -/
structure CatalogCall.Persists (h : History) (call : CatalogCall) : Prop where
  flushed : call.flushes → (call.run h.file).1 = .ok () → (call.run h.file).2.inTransaction = false →
    (call.run h.file).2.document = (call.run h.file).2.data
  begun : ∀ d, call.begins h = some d → (call.run h.file).2.document = d

/-! ## The invariant -/

structure History.Kept (h : History) : Prop where
  remembered : h.file.inTransaction = false → h.unsaved = false → h.file.dirty = true ∨
    h.file.document = h.file.data
  clean : h.file.inTransaction = true → h.file.dirty = false ∧ ∃ d, h.begun = some d
  begun : ∀ d, h.begun = some d → h.file.inTransaction = true ∧ h.file.document = d

namespace CatalogFile

variable {c : CatalogFile}

theorem save_of_in (h : c.inTransaction = true) : c.save = c := by simp [save, h]

theorem save_dirty (h : c.inTransaction = false) : c.save.dirty = true := by simp [save, h]

@[simp] theorem save_stored : c.save.stored = c.stored := by
  unfold save; split <;> rfl

@[simp] theorem save_data : c.save.data = c.data := by
  unfold save; split <;> rfl

@[simp] theorem save_inTransaction : c.save.inTransaction = c.inTransaction := by
  unfold save; split <;> rfl

@[simp] theorem mutate_stored (m : Mutator) : (c.mutate m).stored = c.stored := by
  unfold mutate; split <;> simp

@[simp] theorem mutate_inTransaction (m : Mutator) : (c.mutate m).inTransaction = c.inTransaction := by
  unfold mutate; split <;> simp

/-- A mutator outside a transaction sets the flag, unless it changed nothing. -/
theorem mutate_dirty (m : Mutator) (h : c.inTransaction = false) :
    (c.mutate m).dirty = true ∨ (c.mutate m).dirty = c.dirty ∧ (c.mutate m).data = c.data := by
  unfold mutate
  split
  · exact .inl (save_dirty h)
  · exact .inr ⟨rfl, rfl⟩

theorem mutate_dirty_in (m : Mutator) (h : c.inTransaction = true) : (c.mutate m).dirty = c.dirty := by
  unfold mutate
  split
  · rw [save_of_in (by exact h)]
  · rfl

theorem flushIfDirty_clean (h : c.dirty = false) (put : Except String Unit) : c.flushIfDirty put = (.ok (), c) := by
  simp [flushIfDirty, h]

theorem flushIfDirty_dirty (h : c.dirty = true) (put : Except String Unit) :
    c.flushIfDirty put = c.forceSave put := by simp [flushIfDirty, forceSave, h]

theorem forceSave_ok : c.forceSave (.ok ()) = (.ok (), { c with dirty := false, stored := some c.data }) := rfl

theorem forceSave_error (e : String) : c.forceSave (.error e) = (.error e, { c with dirty := false }) := rfl

end CatalogFile

/-! ## The steps -/

namespace History

variable {h : History}

theorem Kept.clear (hk : h.Kept) (hin : h.file.inTransaction = false) : h.begun = none := by
  rcases hb : h.begun with _ | d
  · rfl
  · simp [(hk.begun d hb).1] at hin

/-- A change in memory keeps the history when, outside a transaction, the flag or the record knows of it. -/
theorem Kept.change (hk : h.Kept) {c : CatalogFile} {u : Bool} (hs : c.stored = h.file.stored)
    (ht : c.inTransaction = h.file.inTransaction) (hd : c.inTransaction = true → c.dirty = h.file.dirty)
    (hr : c.inTransaction = false → u = false → c.dirty = true ∨ c.document = c.data) :
    Kept ⟨c, h.begun, u⟩ where
  remembered := hr
  clean hin := by
    rw [hd hin]
    exact hk.clean (ht ▸ hin)
  begun d hb := by
    rw [CatalogFile.document, hs, ht]
    exact hk.begun d hb

theorem kept_forceSave {c : CatalogFile} (hin : c.inTransaction = false) (put : Except String Unit) :
    Kept ⟨(c.forceSave put).2, none, !put.toBool⟩ := by
  rcases put with e | u
  · rw [CatalogFile.forceSave_error]
    exact ⟨fun _ hu => (nomatch hu), fun h => by simp [hin] at h, fun _ hd => nomatch hd⟩
  · rw [CatalogFile.forceSave_ok]
    exact ⟨fun _ _ => .inr rfl, fun h => by simp [hin] at h, fun _ hd => nomatch hd⟩

theorem forceSave_flushed {c : CatalogFile} {put : Except String Unit} (hok : (c.forceSave put).1 = .ok ()) :
    (c.forceSave put).2.document = (c.forceSave put).2.data := by
  rcases put with e | u
  · nomatch hok
  · rfl

end History

namespace History

variable {h : History}

theorem Kept.mutate (hk : h.Kept) (m : Mutator) : Kept ((CatalogCall.mutate m).apply h) := by
  refine hk.change (CatalogFile.mutate_stored m) (CatalogFile.mutate_inTransaction m) ?_ fun hin hu => ?_
  · intro hin
    rw [CatalogCall.run, CatalogFile.mutate_inTransaction] at hin
    exact CatalogFile.mutate_dirty_in m hin
  · rw [CatalogCall.run, CatalogFile.mutate_inTransaction] at hin
    rcases CatalogFile.mutate_dirty m hin with hd | ⟨hd, hdata⟩
    · exact .inl hd
    · rcases hu' : h.unsaved with _ | _
      · rcases hk.remembered hin hu' with hr | hr
        · exact .inl (hd.trans hr)
        · right
          rw [CatalogCall.run, CatalogFile.document, CatalogFile.mutate_stored, hdata]
          exact hr
      · left
        simpa [CatalogCall.leavesUnsaved, CatalogCall.run, hu'] using hu

theorem Kept.save (hk : h.Kept) : Kept (CatalogCall.save.apply h) := by
  refine hk.change CatalogFile.save_stored CatalogFile.save_inTransaction (fun hin => ?_) fun hin _ => ?_
  · rw [CatalogCall.run, CatalogFile.save_of_in (by simpa [CatalogCall.run] using hin)]
  · exact .inl (CatalogFile.save_dirty (by simpa [CatalogCall.run] using hin))

theorem Kept.edit (hk : h.Kept) (f : CatalogData → CatalogData) : Kept ((CatalogCall.edit f).apply h) := by
  refine hk.change rfl rfl (fun _ => rfl) fun _ hu => .inl ?_
  have hu : h.unsaved = false ∧ h.file.dirty = true := by simpa [CatalogCall.leavesUnsaved] using hu
  exact hu.2

theorem Kept.rollbackTo (hk : h.Kept) (snap : CatalogData) : Kept ((CatalogCall.rollbackTo snap).apply h) := by
  by_cases hin : h.file.inTransaction = true
  · refine hk.change ?_ ?_ ?_ ?_ <;> simp [CatalogCall.run, hin, CatalogFile.restore]
  · refine hk.change ?_ ?_ ?_ ?_ <;> simp [CatalogCall.run, hin, CatalogCall.leavesUnsaved]
    exact fun _ hd => .inl hd

theorem Kept.flushIfDirty (hk : h.Kept) (put : Except String Unit) :
    Kept ((CatalogCall.flushIfDirty put).apply h) := by
  have hrun : (CatalogCall.flushIfDirty put).apply h =
      ⟨(h.file.flushIfDirty put).2, h.begun, if h.file.dirty then !put.toBool else h.unsaved⟩ := rfl
  rw [hrun]
  by_cases hd : h.file.dirty = true
  · have hin : h.file.inTransaction = false := by
      by_contra hin
      simp [(hk.clean (by simpa using hin)).1] at hd
    rw [CatalogFile.flushIfDirty_dirty hd, if_pos hd, hk.clear hin]
    exact kept_forceSave hin put
  · rw [CatalogFile.flushIfDirty_clean (by simpa using hd), if_neg hd]
    exact hk

theorem Kept.begin_ (hk : h.Kept) (put : Except String Unit) (hs : (CatalogCall.begin put).Safe h) :
    Kept ((CatalogCall.begin put).apply h) := by
  by_cases hin : h.file.inTransaction = true
  · have : (CatalogCall.begin put).apply h = h := by
      simp [CatalogCall.apply, CatalogCall.run, CatalogCall.begins, CatalogCall.leavesUnsaved, hin,
        (hk.clean hin).1]
    rw [this]
    exact hk
  · have hrun : (CatalogCall.begin put).apply h =
        ⟨((h.file.setInTransaction true).flushIfDirty put).2, some h.file.data,
          if h.file.dirty then !put.toBool else h.unsaved⟩ := by
      simp [CatalogCall.apply, CatalogCall.run, CatalogCall.begins, CatalogCall.leavesUnsaved, hin]
    have hs := hs.resolve_left hin
    rw [hrun]
    by_cases hd : h.file.dirty = true
    · obtain rfl : put = .ok () := by simpa [hd] using hs
      rw [CatalogFile.flushIfDirty_dirty (by exact hd), CatalogFile.forceSave_ok]
      refine ⟨fun hin => (nomatch hin), fun _ => ⟨rfl, _, rfl⟩, fun d hb => ⟨rfl, ?_⟩⟩
      exact Option.some.inj hb
    · have hd : h.file.dirty = false := by simpa using hd
      rw [CatalogFile.flushIfDirty_clean (by exact hd)]
      have hu : h.unsaved = false := by simpa [hd] using hs
      have hdoc := (hk.remembered (by simpa using hin) hu).resolve_left (by simp [hd])
      refine ⟨fun hin => (nomatch hin), fun _ => ⟨hd, _, rfl⟩, fun d hb => ⟨rfl, ?_⟩⟩
      exact hdoc.trans (Option.some.inj hb)

theorem kept_load (stored : Option CatalogData) : Kept ⟨.load stored, none, false⟩ :=
  ⟨fun _ _ => .inr rfl, fun h => (nomatch h), fun _ h => (nomatch h)⟩

/-- A transaction ends by a put, and no call ends one that is not there. -/
theorem Kept.end_ (hk : h.Kept) {call : CatalogCall} {c : CatalogFile} {put : Except String Unit}
    (hc : c.inTransaction = false)
    (hin : h.file.inTransaction = true → call.apply h = ⟨(c.forceSave put).2, none, !put.toBool⟩)
    (hout : h.file.inTransaction = false → h.begun = none → call.apply h = h) : Kept (call.apply h) := by
  by_cases ht : h.file.inTransaction = true
  · rw [hin ht]
    exact kept_forceSave hc put
  · have ht : h.file.inTransaction = false := by simpa using ht
    rw [hout ht (hk.clear ht)]
    exact hk

theorem Kept.apply (hk : h.Kept) (call : CatalogCall) (hs : call.Safe h) : Kept (call.apply h) := by
  cases call with
  | mutate m => exact hk.mutate m
  | save => exact hk.save
  | edit f => exact hk.edit f
  | rollbackTo snap => exact hk.rollbackTo snap
  | flushIfDirty put => exact hk.flushIfDirty put
  | begin put => exact hk.begin_ put hs
  | commit put =>
    refine @Kept.end_ h hk (.commit put) (h.file.setInTransaction false) put rfl (fun hin => ?_) fun hin hb => ?_
    · simp [CatalogCall.apply, CatalogCall.run, CatalogCall.begins, CatalogCall.leavesUnsaved, hin]
    · simp [CatalogCall.apply, CatalogCall.run, CatalogCall.begins, CatalogCall.leavesUnsaved, hin, ← hb]
  | rollback snap put =>
    refine @Kept.end_ h hk (.rollback snap put) ((h.file.setInTransaction false).restore snap) put rfl (fun hin => ?_)
      fun hin hb => ?_
    · simp [CatalogCall.apply, CatalogCall.run, CatalogCall.begins, CatalogCall.leavesUnsaved, hin]
    · simp [CatalogCall.apply, CatalogCall.run, CatalogCall.begins, CatalogCall.leavesUnsaved, hin, ← hb]
  | rollbackStops e =>
    have hin : h.file.inTransaction = false := hs
    have : (CatalogCall.rollbackStops e).apply h = h := by
      simp [CatalogCall.apply, CatalogCall.run, CatalogCall.begins, CatalogCall.leavesUnsaved, hin]
    rw [this]
    exact hk
  | restart => exact kept_load h.file.stored

theorem Kept.persists (hk : h.Kept) (call : CatalogCall) (hs : call.Safe h) : call.Persists h := by
  refine ⟨fun hf hok hin => ?_, fun d hb => (((hk.apply call hs).begun d) hb).2⟩
  cases call with
  | flushIfDirty put =>
    rw [CatalogCall.run] at hok hin ⊢
    by_cases hd : h.file.dirty = true
    · rw [CatalogFile.flushIfDirty_dirty hd] at hok ⊢
      exact forceSave_flushed hok
    · have hd : h.file.dirty = false := by simpa using hd
      rw [CatalogFile.flushIfDirty_clean hd] at hin ⊢
      rcases hs with ht | ht | ht
      · nomatch hin.symm.trans ht
      · nomatch hd.symm.trans ht
      · exact (hk.remembered hin ht).resolve_left (by simp [hd])
  | commit put =>
    rw [CatalogCall.run] at hok ⊢
    by_cases ht : h.file.inTransaction = true
    · rw [if_pos ht] at hok ⊢
      exact forceSave_flushed hok
    · simp [ht] at hok
  | rollback snap put =>
    rw [CatalogCall.run] at hok ⊢
    by_cases ht : h.file.inTransaction = true
    · rw [if_pos ht] at hok ⊢
      exact forceSave_flushed hok
    · simp [ht] at hok
  | _ => nomatch hf

theorem kept_after (stored : Option CatalogData) {calls : List CatalogCall}
    (hc : Along (fun h call => CatalogCall.Safe h call) (start stored) calls) :
    (after (start stored) calls).Kept :=
  Along.inv (fun _ call hk hs => hk.apply call hs) (kept_load stored) hc

end History

/-! ## The runs -/

/-- **A flush that returns has written the catalog, and a transaction leaves the document alone**, in every
run in which no flush forgets a change. -/
theorem document_kept (stored : Option CatalogData) (calls : List CatalogCall) (call : CatalogCall)
    (hc : Along (fun h call => CatalogCall.Safe h call) (History.start stored) (calls ++ [call])) :
    call.Persists (after (History.start stored) calls) :=
  (History.kept_after stored (along_append.mp hc).1).persists call (along_append.mp hc).2.1


def CatalogCall.exampleTable : TableMeta := ⟨"t", [], "db/t", [], none, none, [], []⟩

/-- The second put succeeds. -/
theorem document_kept_retried : (CatalogCall.flushIfDirty (.ok ())).Persists (after (.start none)
    [.mutate (.addTable CatalogCall.exampleTable), .flushIfDirty (.error "unavailable"),
      .mutate (.removeTable "t")]) :=
  document_kept none _ _ (by decide +kernel)

/-- The put fails, and the next flush returns without a put. -/
theorem document_loses_failed_put : ¬ (CatalogCall.flushIfDirty (.ok ())).Persists (after (.start none)
    [.mutate (.addTable CatalogCall.exampleTable), .flushIfDirty (.error "unavailable")]) := by
  intro h
  exact absurd (h.flushed rfl rfl rfl) (by decide +kernel)

/-! ## The engine's calls -/

def Db.catalogFile (db : Db) : CatalogFile := ⟨db.catalog, db.catalogDoc, db.catalogDirty, db.catalogInTransaction⟩

theorem catalogFile_catalogSave (db : Db) : (catalogSave.final db).catalogFile = db.catalogFile.save := by
  have hp : catalogSave.final db = Prog.final (σ := Db) (ο := Op) (ε := String)
      (if db.catalogInTransaction then pure () else Prog.emit .markCatalogDirty) db := rfl
  rw [hp]
  by_cases h : db.catalogInTransaction = true
  · rw [if_pos h, CatalogFile.save_of_in (by exact h)]
    rfl
  · rw [if_neg h, CatalogFile.save, if_neg (by exact h)]
    rfl

theorem catalogFile_catalogFlushIfDirty (db : Db) :
    (catalogFlushIfDirty.final db).catalogFile = (db.catalogFile.flushIfDirty (.ok ())).2 := by
  have hp : catalogFlushIfDirty.final db = Prog.final (σ := Db) (ο := Op) (ε := String)
      (if db.catalogDirty then Prog.emit .writeCatalog else pure ()) db := rfl
  rw [hp]
  by_cases h : db.catalogDirty = true
  · rw [if_pos h, CatalogFile.flushIfDirty_dirty (by exact h)]
    rfl
  · rw [if_neg h, CatalogFile.flushIfDirty_clean (by simpa [Db.catalogFile] using h)]
    rfl

theorem catalogFile_catalogForceSave (db : Db) :
    (catalogForceSave.final db).catalogFile = (db.catalogFile.forceSave (.ok ())).2 := rfl

theorem catalogFile_modifyCatalog (f : CatalogData → CatalogData) (db : Db) :
    ((modifyCatalog f).final db).catalogFile = { db.catalogFile with data := f db.catalog } := rfl

end PotatoDB
