import PotatoDB.CatalogFile
import PotatoDB.Sorting

/-!
# Migrations

Registering migrations and MIGRATE, over the catalog and its document. What a body does when it is
executed is an answer of its own: whether it succeeds, whether its statements take effect, and the
calls to the catalog it makes. A call that is cut off in a body counts as one that fails there.
-/

namespace PotatoDB

open Oplog

/-- What executing the body of a migration does. -/
structure BodyRun where
  result : Except String Unit
  /-- A body that fails has taken effect, in whole or in part. -/
  leavesEffect : Bool
  calls : List CatalogCall
  /-- The clock after it. -/
  nowMs : Int

def BodyRun.takesEffect (b : BodyRun) : Bool := b.result.toBool || b.leavesEffect

structure MigrationDb where
  file : CatalogFile
  /-- The migrations whose statements have taken effect, in order. -/
  effects : List Nat

namespace CatalogData

def registerMigration (c : CatalogData) (m : MigrationRecord) : CatalogData :=
  { c with migrations := Sorting.sortBy (Sorting.on (·.version) compare) (c.migrations ++ [m]) }

/-- The first record of the version is marked. -/
def recordApplied (c : CatalogData) (version : Nat) (nowMs : Int) : CatalogData :=
  { c with
    migrations := match c.migrations.findIdx? (·.version = version) with
      | some i => c.migrations.modify i fun m => { m with appliedAtMs := nowMs }
      | none => c.migrations
    schemaVersion := version }

end CatalogData

namespace MigrationDb

/-- An engine on an empty data directory. -/
def new : MigrationDb := ⟨.load none, []⟩

def handleCreateMigration (s : MigrationDb) (version : Nat) (description sql : String) :
    Except String String × MigrationDb :=
  if s.file.data.migrations.any (·.version = version) then (.error s!"Migration version {version} already exists", s)
  else
    let data := s.file.data.registerMigration ⟨version, description, sql, 0⟩
    (.ok s!"Migration {version} '{description}' registered.", { s with file := { s.file with data := data }.save })

def runMigration (body : BodyRun) (s : MigrationDb) (m : MigrationRecord) : Except String Unit × MigrationDb :=
  let file := body.calls.foldl (fun c call => (call.run c).2) s.file
  let effects := if body.takesEffect then s.effects ++ [m.version] else s.effects
  match body.result with
  | .error e => (.error e, ⟨file, effects⟩)
  | .ok () => (.ok (), ⟨{ file with data := file.data.recordApplied m.version body.nowMs }, effects⟩)

def runMigrations (bodies : Nat → BodyRun) (s : MigrationDb) : List MigrationRecord → Except String Unit × MigrationDb
  | [] => (.ok (), s)
  | m :: ms =>
    match runMigration (bodies m.version) s m with
    | (.ok (), s') => runMigrations bodies s' ms
    | (.error e, s') => (.error e, s')

def pendingMigrations (s : MigrationDb) (target : Option Nat) : List MigrationRecord :=
  let pending := s.file.data.migrations.filter (·.version > s.file.data.schemaVersion)
  match target with
  | some t => pending.filter (·.version ≤ t)
  | none => pending

/-- `bodies` answers for each version. -/
def handleMigrate (s : MigrationDb) (target : Option Nat) (bodies : Nat → BodyRun) : Except String String × MigrationDb :=
  match runMigrations bodies s (s.pendingMigrations target) with
  | (.error e, s') => (.error e, s')
  | (.ok (), done) =>
    (.ok s!"Applied {(s.pendingMigrations target).length} migration(s). Schema version: {done.file.data.schemaVersion}.",
      { done with file := done.file.save })

/-- The flush at the end of a statement. -/
def finish (put : Except String Unit) (r : Except String String × MigrationDb) : Except String String × MigrationDb :=
  match r.2.file.flushIfDirty put with
  | (.ok (), file) => (r.1, { r.2 with file := file })
  | (.error e, file) => (.error e, { r.2 with file := file })

end MigrationDb

inductive MigrationEvent where
  | createMigration (version : Nat) (description sql : String) (put : Except String Unit)
  | migrate (target : Option Nat) (bodies : Nat → BodyRun) (put : Except String Unit)
  /-- A call to the catalog by another statement, or a restart. -/
  | other (call : CatalogCall)

def MigrationEvent.run (s : MigrationDb) : MigrationEvent → Except String String × MigrationDb
  | createMigration version description sql put => MigrationDb.finish put (s.handleCreateMigration version description sql)
  | migrate target bodies put => MigrationDb.finish put (s.handleMigrate target bodies)
  | other call => (.ok "", { s with file := (call.run s.file).2 })

instance machineMigrationDb : Machine MigrationDb MigrationEvent := ⟨fun s e => (e.run s).2⟩

end PotatoDB
