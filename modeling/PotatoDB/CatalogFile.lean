import PotatoDB.Catalog
import PotatoDB.Oplog

/-!
# The catalog and its document

The catalog in memory with its two flags, and the document in the store, which a put may fail
to replace. The calls are as the engine makes them: an edit of a field is a call
of its own, and BEGIN, COMMIT and ROLLBACK make several.
-/

namespace PotatoDB

open Oplog

/-! ## `Catalog` -/

structure CatalogFile where
  data : CatalogData
  /-- `catalog.json`. -/
  stored : Option CatalogData
  dirty : Bool
  inTransaction : Bool

inductive Mutator where
  | addTable (m : TableMeta)
  | removeTable (name : String)
  | addIndex (def_ : IndexDef)
  | removeIndex (name : String)
  | addView (def_ : ViewDef)
  | removeView (name : String)
  | setStatistics (name : String) (stats : TableStatistics)
  | setFileStats (name : String) (fileStats : List FileStats)
  | addSequence (def_ : SequenceDef)
  | removeSequence (name : String)
  | addUdf (def_ : UdfDef)
  | removeUdf (name : String)
  | nextSequenceValue (name : String)

/-- The contents a mutator saves; `none` when it returns before it saves. -/
def Mutator.change (c : CatalogData) : Mutator → Option CatalogData
  | addTable m => some (c.addTable m)
  | removeTable name => some (c.removeTable name)
  | addIndex d => some (c.addIndex d)
  | removeIndex name => some (c.removeIndex name)
  | addView d => some (c.addView d)
  | removeView name => some (c.removeView name)
  | setStatistics name stats => (c.tables.lookup name).map fun _ => c.setStatistics name stats
  | setFileStats name fs => (c.tables.lookup name).map fun _ => c.setFileStats name fs
  | addSequence d => some (c.addSequence d)
  | removeSequence name => some (c.removeSequence name)
  | addUdf d => some (c.addUdf d)
  | removeUdf name => some (c.removeUdf name)
  | nextSequenceValue name => (c.nextSequenceValue name).toOption.map (·.2)

namespace CatalogFile

/-- The contents a load would find. -/
def document (c : CatalogFile) : CatalogData := c.stored.getD .empty

def load (stored : Option CatalogData) : CatalogFile := ⟨stored.getD .empty, stored, false, false⟩

def save (c : CatalogFile) : CatalogFile := if c.inTransaction then c else { c with dirty := true }

def mutate (c : CatalogFile) (m : Mutator) : CatalogFile :=
  match m.change c.data with
  | some d => { c with data := d }.save
  | none => c

/-- `put` is the answer of the store. -/
def writeToStore (c : CatalogFile) (put : Except String Unit) : Except String Unit × CatalogFile :=
  match put with
  | .ok () => (.ok (), { c with stored := some c.data })
  | .error e => (.error e, c)

def flushIfDirty (c : CatalogFile) (put : Except String Unit) : Except String Unit × CatalogFile :=
  if c.dirty then { c with dirty := false }.writeToStore put else (.ok (), c)

def forceSave (c : CatalogFile) (put : Except String Unit) : Except String Unit × CatalogFile :=
  { c with dirty := false }.writeToStore put

def restore (c : CatalogFile) (snap : CatalogData) : CatalogFile := { c with data := snap }

def setInTransaction (c : CatalogFile) (active : Bool) : CatalogFile := { c with inTransaction := active }

end CatalogFile

/-! ## The calls of the engine -/

inductive CatalogCall where
  | mutate (m : Mutator)
  /-- A handler edits fields of the catalog. -/
  | edit (f : CatalogData → CatalogData)
  | save
  | flushIfDirty (put : Except String Unit)
  /-- BEGIN, with the flush at the end of the statement. -/
  | begin (put : Except String Unit)
  | commit (put : Except String Unit)
  | rollback (snap : CatalogData) (put : Except String Unit)
  /-- ROLLBACK stops at a file it cannot delete. -/
  | rollbackStops (e : String)
  | rollbackTo (snap : CatalogData)
  /-- The process stops, and another loads the document. -/
  | restart

def CatalogCall.run (c : CatalogFile) : CatalogCall → Except String Unit × CatalogFile
  | mutate m => (.ok (), c.mutate m)
  | edit f => (.ok (), { c with data := f c.data })
  | save => (.ok (), c.save)
  | flushIfDirty put => c.flushIfDirty put
  | begin put =>
    if c.inTransaction then (.error "Already inside a transaction (nested BEGIN not supported)", c)
    else (c.setInTransaction true).flushIfDirty put
  | commit put =>
    if c.inTransaction then (c.setInTransaction false).forceSave put
    else (.error "No active transaction to COMMIT", c)
  | rollback snap put =>
    if c.inTransaction then ((c.setInTransaction false).restore snap).forceSave put
    else (.error "No active transaction to ROLLBACK", c)
  | rollbackStops e =>
    if c.inTransaction then (.error e, c.setInTransaction false)
    else (.error "No active transaction to ROLLBACK", c)
  | rollbackTo snap =>
    if c.inTransaction then (.ok (), c.restore snap)
    else (.error "ROLLBACK TO SAVEPOINT requires an active transaction", c)
  | restart => (.ok (), .load c.stored)

/-- Whether the call ends with `flush_if_dirty` or `force_save`. -/
def CatalogCall.flushes : CatalogCall → Bool
  | flushIfDirty _ | commit _ | rollback .. => true
  | _ => false

end PotatoDB
