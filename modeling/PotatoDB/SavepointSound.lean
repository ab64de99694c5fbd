import PotatoDB.RollbackSound

/-!
# Savepoints

ROLLBACK TO puts back the files of the savepoint and the rows that were backed up before it, and
makes the state it restores the snapshot of the transaction.
-/

namespace PotatoDB

open Oplog Oplog.Prog
open Machine (apply)

/-! ## The stretch from SAVEPOINT to ROLLBACK TO -/

/-- What SAVEPOINT keeps of the state. -/
def Db.savepoint (db : Db) (txn : Transaction) (name : String) : Savepoint :=
  ⟨name, db.catalog, db.fileSnapshot, txn.rewriteBackups⟩

/-- The step spares the files of the savepoint, which stays live at its place. -/
def KeepsSavepoint (sp : Savepoint) (place : Nat) (_ : Db) : Op → Prop
  | .truncateSavepoints n => place < n
  | .beginTxn _ | .endTxn => False
  | o => Spares sp.fileSnapshot sp.rewriteBackups o

def Op.keepsPlace (place : Nat) : Op → Bool
  | .truncateSavepoints n => place < n
  | .beginTxn _ | .endTxn => false
  | _ => true

theorem keepsSavepoint_iff (sp : Savepoint) (place : Nat) (s : Db) (o : Op) :
    KeepsSavepoint sp place s o ↔ o.keepsPlace place = true ∧ Spares sp.fileSnapshot sp.rewriteBackups o := by
  cases o with
  | truncateSavepoints n => exact ⟨fun h => ⟨decide_eq_true (show place < n from h), trivial⟩, fun h => of_decide_eq_true (p := place < n) h.1⟩
  | beginTxn _ | endTxn => exact iff_of_false id fun h => Bool.noConfusion h.1
  | _ => exact (and_iff_right rfl).symm

instance decidableKeepsSavepoint (sp : Savepoint) (place : Nat) (s : Db) (o : Op) :
    Decidable (KeepsSavepoint sp place s o) :=
  decidable_of_iff _ (keepsSavepoint_iff sp place s o).symm

/-- The savepoint is live, and it can be restored. -/
structure HoldsSavepoint (s₀ : Db) (sp : Savepoint) (place : Nat) (s : Db) : Prop where
  nextFile : s₀.nextFile ≤ s.nextFile
  txn : ∃ txn, s.activeTxn = some txn ∧ ∃ before after, txn.savepoints = before ++ sp :: after ∧
    before.length = place
  recoverable : Recoverable s₀ sp.rewriteBackups s

section
variable {env : Env} {s₀ s : Db} {sp : Savepoint} {place : Nat}

theorem findSavepoint_last {before after : List Savepoint} (h : ∀ x ∈ after, x.name ≠ sp.name) :
    findSavepoint (before ++ sp :: after) sp.name = some (sp, before.length) := by
  unfold findSavepoint
  rw [List.zipIdx_append, List.zipIdx_cons, List.reverse_append, List.reverse_cons, List.find?_append,
    List.find?_append]
  have hnone : (after.zipIdx (0 + before.length + 1)).reverse.find? (fun x => decide (x.1.name = sp.name)) = none := by
    rw [List.find?_eq_none]
    rintro ⟨x, i⟩ hx
    rw [List.mem_reverse] at hx
    simpa using h x (List.fst_mem_of_mem_zipIdx hx)
  rw [hnone]
  simp

theorem holdsSavepoint_step (hfile : sp.fileSnapshot = s₀.fileSnapshot) {o : Op}
    (h : HoldsSavepoint s₀ sp place s) (hk : KeepsSavepoint sp place s o) :
    HoldsSavepoint s₀ sp place (apply s o) := by
  obtain ⟨hn, ⟨txn, htxn, before, after, hsps, hlen⟩, hrec⟩ := h
  have hsame : ∀ (o : Op) (f : Transaction → Transaction) (after' : List Savepoint),
      Spares sp.fileSnapshot sp.rewriteBackups o → (apply s o).activeTxn = s.activeTxn.map f →
      (f txn).savepoints = before ++ sp :: after' → HoldsSavepoint s₀ sp place (apply s o) := by
    intro o f after' ho hf hsps'
    obtain ⟨hn', hrec'⟩ := recoverable_step hrec hn (hfile ▸ ho)
    exact ⟨hn', ⟨f txn, by rw [hf, htxn, Option.map_some], before, after', hsps', hlen⟩, hrec'⟩
  cases o with
  | pushSavepoint name =>
    refine hsame _ _ (after ++ [s.savepoint txn name]) trivial rfl ?_
    show txn.savepoints ++ [_] = _
    rw [hsps, List.append_assoc, List.cons_append]
    rfl
  | truncateSavepoints n =>
    refine hsame _ _ (after.take (n - place - 1)) trivial rfl ?_
    show txn.savepoints.take n = _
    have hsplit : n = before.length + (n - place - 1 + 1) := by
      have : place < n := hk
      omega
    rw [hsps, hsplit, List.take_length_add_append, List.take_succ_cons]
    congr 4
    omega
  | backupTable table =>
    refine hsame _ _ after trivial rfl ?_
    unfold Transaction.backup
    split
    · exact hsps
    · exact hsps
  | deferDelete m => exact hsame _ _ after trivial rfl hsps
  | resetTxn => exact hsame _ _ after trivial rfl hsps
  | beginTxn _ | endTxn => exact absurd hk not_false
  | _ => exact hsame _ id after hk (Option.map_id_fun' ▸ rfl) hsps

theorem holdsSavepoint_begin {txn : Transaction} {name : String} (htxn : s.activeTxn = some txn)
    (hrec : Recoverable s txn.rewriteBackups s) :
    Yields (handleSavepoint name) s fun _ t => HoldsSavepoint s (s.savepoint txn name) txn.savepoints.length t := by
  unfold handleSavepoint
  simp only [yields_bind, yields_get, htxn, yields_emit, yields_pure]
  refine ⟨Nat.le_refl _, ⟨{ txn with savepoints := txn.savepoints ++ [s.savepoint txn name] }, ?_,
    txn.savepoints, [], rfl, rfl⟩, hrec.of_store rfl⟩
  show s.activeTxn.map _ = _
  rw [htxn]
  rfl

/-- Before ROLLBACK TO, no later savepoint of the name is live, the write buffer is the one of the savepoint,
and the files are where ROLLBACK TO looks for them. -/
structure ReadyForSavepoint (env : Env) (s₀ : Db) (sp : Savepoint) (place : Nat) (s : Db) : Prop where
  last : ∀ txn, s.activeTxn = some txn → ∀ x ∈ txn.savepoints.drop (place + 1), x.name ≠ sp.name
  buffer : s.writeBuffer = s₀.writeBuffer
  ready : Ready env sp.catalogSnapshot sp.fileSnapshot sp.rewriteBackups s₀.nextFile s

/-- The contents are those of `s₀`, and the savepoint can be used again. -/
structure AtSavepoint (s₀ : Db) (sp : Savepoint) (place : Nat) (s : Db) : Prop extends
    Restored s₀ s₀.nextFile s where
  usable : ∃ txn, s.activeTxn = some txn ∧ findSavepoint txn.savepoints sp.name = some (sp, place)

theorem yields_rollbackTo {txn₀ : Transaction} {name : String} (ha : Anchored env s₀)
    (h : HoldsSavepoint s₀ (s₀.savepoint txn₀ name) place s)
    (hready : ReadyForSavepoint env s₀ (s₀.savepoint txn₀ name) place s) :
    Yields (handleRollbackTo env name) s fun _ t => AtSavepoint s₀ (s₀.savepoint txn₀ name) place t := by
  obtain ⟨hn, ⟨txn, htxn, before, after, hsps, hlen⟩, hrec⟩ := h
  have hlast : ∀ x ∈ after, x.name ≠ name := by
    have := hready.last txn htxn
    rwa [hsps, ← hlen, List.drop_length_add_append, List.drop_one, List.tail_cons] at this
  have hfind : findSavepoint txn.savepoints name = some (s₀.savepoint txn₀ name, before.length) := by
    rw [hsps]
    exact @findSavepoint_last (s₀.savepoint txn₀ name) before after hlast
  unfold handleRollbackTo
  simp only [yields_bind, yields_get, htxn, hfind, yields_emit, yields_pure]
  have hrec' : Recoverable s₀ txn₀.rewriteBackups (apply s (.truncateSavepoints (before.length + 1))) :=
    hrec.of_store rfl
  refine (yields_restoreSnapshot ha hrec' ⟨hready.ready.spare, hready.ready.covered⟩ hready.buffer).mono ?_
  rintro _ t ⟨ht, htxn'⟩
  refine ⟨⟨⟨ht.catalog, ht.rows, ht.buffer⟩, ht.strays⟩, ?_⟩
  have hcut : txn.savepoints.take (before.length + 1) = before ++ [s₀.savepoint txn₀ name] := by
    rw [hsps, List.take_length_add_append, List.take_succ_cons, List.take_zero]
  refine ⟨_, by
    show t.activeTxn.map _ = _
    rw [htxn']
    show (s.activeTxn.map _).map _ = _
    rw [htxn]
    rfl, ?_⟩
  show findSavepoint (txn.savepoints.take (before.length + 1)) name = _
  rw [hcut, ← hlen]
  exact @findSavepoint_last (s₀.savepoint txn₀ name) before [] (by simp)

/-! ## The transaction with savepoints in it -/

theorem SameContents.trans {s₁ s₂ : Db} (h : SameContents s₀ s₁) (h' : SameContents s₁ s₂) : SameContents s₀ s₂ := by
  refine ⟨h'.catalog.trans h.catalog, fun t ht => ?_, h'.buffer.trans h.buffer⟩
  obtain ⟨m, hm⟩ := Map.mem_iff_lookup.mp ht
  obtain ⟨m', hm', -⟩ := lookup_forgetFiles h.catalog.symm hm
  exact (h'.rows t (Map.mem_iff_lookup.mpr ⟨m', hm'⟩)).trans (h.rows t ht)

theorem SameContents.restored {s₁ t : Db} {n : Nat} (h : SameContents s₀ s₁) (h' : Restored s₁ n t) :
    Restored s₀ n t := by
  refine ⟨h.trans h'.toSameContents, fun e he hf => ?_⟩
  obtain ⟨u, hu, hp⟩ := h'.strays e he hf
  obtain ⟨m, hm⟩ := Map.mem_iff_lookup.mp hu
  obtain ⟨m', hm', -⟩ := lookup_forgetFiles h.catalog hm
  exact ⟨u, Map.mem_iff_lookup.mpr ⟨m', hm'⟩, hp⟩

/-- The step keeps the snapshot of the transaction, or makes a state with the contents of `s₀` its snapshot. -/
def KeepsOrResets (env : Env) (s₀ s : Db) (o : Op) : Prop :=
  Keeps env s o ∨ o = .resetTxn ∧ Anchored env s ∧ SameContents s₀ s

/-- The transaction has the snapshot of a state with the contents of `s₀`. -/
def ThroughTransaction (env : Env) (s₀ s : Db) : Prop :=
  ∃ ref, Anchored env ref ∧ SameContents s₀ ref ∧ InTransaction ref s

theorem throughTransaction_step {o : Op} (h : ThroughTransaction env s₀ s) (hk : KeepsOrResets env s₀ s o) :
    ThroughTransaction env s₀ (apply s o) := by
  obtain ⟨ref, ha, hsame, hin⟩ := h
  rcases hk with hk | ⟨rfl, hanch, hs⟩
  · exact ⟨ref, ha, hsame, inTransaction_step ha hin hk⟩
  · obtain ⟨-, txn, htxn, -⟩ := hin
    refine ⟨s, hanch, hs, Nat.le_refl _, { txn with
      catalogSnapshot := s.catalog, fileSnapshot := s.fileSnapshot, rewriteBackups := ∅ }, ?_, rfl, rfl, ?_, ?_⟩
    · show s.activeTxn.map _ = _
      rw [htxn]
      rfl
    · intro t _ _
      exact List.filter_eq_self.mpr fun e he => decide_eq_true (hanch.fresh e (Store.mem_list.mp he).1)
    · intro t _ b hb
      cases hb

end

/-! ## Both as statements -/

section
variable (env : Env) (fuel : Nat)

/-- A stretch from SAVEPOINT to ROLLBACK TO whose steps spare the savepoint. -/
structure SavepointStretch (p : Span) (name : String) (txn : Transaction) : Prop where
  opens : env.parse p.first = .savepoint name
  closes : env.parse p.last = .rollbackTo name
  succeeds : p.Succeeds env fuel
  anchored : Anchored env (p.point env)
  activeTxn : (p.point env).activeTxn = some txn
  /-- A table backed up before the savepoint has the rows of its backup. -/
  backups : ∀ t ∈ (p.point env).catalog.tables, ∀ b, txn.rewriteBackups.lookup t = some b →
    ∃ r, (p.point env).relation t = some r ∧ allRows b = r.rows
  steps : Along (KeepsSavepoint ((p.point env).savepoint txn name) txn.savepoints.length)
    (p.opened env fuel) (p.steps env fuel)
  ready : ReadyForSavepoint env (p.point env) ((p.point env).savepoint txn name) txn.savepoints.length
    (p.reached env fuel)

/-- A stretch from BEGIN to ROLLBACK in which each ROLLBACK TO restores the contents of BEGIN. -/
structure TransactionStretch (p : Span) : Prop where
  opens : env.parse p.first = .startTransaction
  closes : env.parse p.last = .rollback
  succeeds : p.Succeeds env fuel
  anchored : Anchored env (p.point env)
  steps : Along (KeepsOrResets env (p.point env)) (p.opened env fuel) (p.steps env fuel)
  ready : ReadyToRollBack env (p.point env) (p.reached env fuel)

end

section
variable {env : Env} {fuel : Nat}

theorem SavepointStretch.restores {p : Span} {name : String} {txn : Transaction}
    (h : SavepointStretch env fuel p name txn) : AtSavepoint (p.point env) ((p.point env).savepoint txn name)
      txn.savepoints.length (p.closed env fuel) := by
  have hrec : Recoverable (p.point env) txn.rewriteBackups (p.point env) := by
    refine ⟨fun t _ _ => ?_, h.backups⟩
    exact List.filter_eq_self.mpr fun e he => decide_eq_true (h.anchored.fresh e (Store.mem_list.mp he).1)
  have hopen : HoldsSavepoint (p.point env) ((p.point env).savepoint txn name) txn.savepoints.length
      (p.opened env fuel) := by
    refine Span.opened_of h.succeeds ?_
    rw [h.opens]
    refine (holdsSavepoint_begin h.activeTxn hrec).mono fun r t ht => ?_
    simpa [leave, Statement.returnsEarly] using ht
  have hreached := h.steps.inv (fun _ _ hi hk => holdsSavepoint_step rfl hi hk) hopen
  rw [Span.after_steps] at hreached
  refine Span.closed_of h.succeeds ?_
  rw [h.closes]
  refine (yields_rollbackTo h.anchored hreached h.ready).mono fun r t ht => ?_
  simpa [leave, Statement.returnsEarly] using ht

theorem TransactionStretch.restores {p : Span} (h : TransactionStretch env fuel p) :
    Restored (p.point env) (p.point env).nextFile (p.closed env fuel) := by
  have hopen : ThroughTransaction env (p.point env) (p.opened env fuel) :=
    ⟨p.point env, h.anchored, ⟨rfl, fun _ _ => rfl, rfl⟩, Span.begun h.opens h.succeeds h.anchored⟩
  have hreached := h.steps.inv (fun _ _ hi hk => throughTransaction_step hi hk) hopen
  rw [Span.after_steps] at hreached
  obtain ⟨ref, ha, hsame, hin⟩ := hreached
  refine Span.closed_of h.succeeds ?_
  rw [h.closes]
  have hbuffer := h.ready.buffer.trans hsame.buffer.symm
  refine (yields_rollback ha hin hbuffer h.ready.ready).mono fun r t ht => ?_
  have ht' := hsame.restored ht
  exact yields_leave_control rfl ht' ⟨⟨ht'.catalog, ht'.rows, ht'.buffer⟩, ht'.strays⟩

/-- **ROLLBACK TO restores the savepoint and keeps it, and ROLLBACK still restores BEGIN.** -/
theorem savepoint_and_begin_restored {p q : Span} {name : String} {txn : Transaction}
    (hq : SavepointStretch env fuel q name txn) (hp : TransactionStretch env fuel p) :
    AtSavepoint (q.point env) ((q.point env).savepoint txn name) txn.savepoints.length (q.closed env fuel) ∧
      Restored (p.point env) (p.point env).nextFile (p.closed env fuel) :=
  ⟨hq.restores, hp.restores⟩

end

/-! ## An UPDATE after a savepoint -/

/-- A savepoint and a ROLLBACK TO it within the transaction. -/
def flagSavepoint (sqls : List String) : Span := ⟨(flagSpan []).opened flagEnv 1, "SAVEPOINT s", sqls, "ROLLBACK TO s"⟩

/-- **An UPDATE after a savepoint loses the rows of the table**, for ROLLBACK TO and for ROLLBACK. -/
theorem rollbackTo_loses_rows :
    let q := flagSavepoint ["UPDATE t SET a = a"]
    let p := flagSpan ["SAVEPOINT s", "UPDATE t SET a = a", "ROLLBACK TO s"]
    q.Succeeds flagEnv 1 ∧ (q.point flagEnv).relation "t" = some ⟨flagSchema, [[.bool true]]⟩ ∧
      (q.closed flagEnv 1).relation "t" = some ⟨flagSchema, []⟩ ∧
      p.Succeeds flagEnv 1 ∧ (p.point flagEnv).relation "t" = some ⟨flagSchema, [[.bool true]]⟩ ∧
      (p.closed flagEnv 1).relation "t" = some ⟨flagSchema, []⟩ := by
  have hq : (flagSavepoint ["UPDATE t SET a = a"]).Succeeds flagEnv 1 ∧
      ((flagSavepoint ["UPDATE t SET a = a"]).point flagEnv).relation "t" = some ⟨flagSchema, [[.bool true]]⟩ ∧
      ((flagSavepoint ["UPDATE t SET a = a"]).closed flagEnv 1).relation "t" = some ⟨flagSchema, []⟩ := by decide +kernel
  have hp : (flagSpan ["SAVEPOINT s", "UPDATE t SET a = a", "ROLLBACK TO s"]).Succeeds flagEnv 1 ∧
      ((flagSpan ["SAVEPOINT s", "UPDATE t SET a = a", "ROLLBACK TO s"]).point flagEnv).relation "t" =
        some ⟨flagSchema, [[.bool true]]⟩ ∧
      ((flagSpan ["SAVEPOINT s", "UPDATE t SET a = a", "ROLLBACK TO s"]).closed flagEnv 1).relation "t" =
        some ⟨flagSchema, []⟩ := by decide +kernel
  exact ⟨hq.1, hq.2.1, hq.2.2, hp⟩

theorem flagSavepoint_insert :
    SavepointStretch flagEnv 1 (flagSavepoint ["INSERT INTO t VALUES (FALSE)"]) "s"
      ⟨flagDb.catalog, flagDb.fileSnapshot, [], 1, ∅, []⟩ where
  opens := rfl
  closes := rfl
  succeeds := by decide +kernel
  anchored := flag_anchored (by decide +kernel)
  activeTxn := by decide +kernel
  backups := fun _ _ _ hb => by cases hb
  steps := by decide +kernel
  ready := by
    obtain ⟨hbuffer, hsps⟩ : ((flagSavepoint ["INSERT INTO t VALUES (FALSE)"]).reached flagEnv 1).writeBuffer =
        ((flagSavepoint ["INSERT INTO t VALUES (FALSE)"]).point flagEnv).writeBuffer ∧
        ((flagSavepoint ["INSERT INTO t VALUES (FALSE)"]).reached flagEnv 1).activeTxn.map
          (fun txn => txn.savepoints.drop 1) = some [] := by decide +kernel
    refine ⟨?_, hbuffer, flag_ready (by decide +kernel)⟩
    intro txn ht
    rw [ht] at hsps
    have hnil : txn.savepoints.drop 1 = [] := Option.some.inj hsps
    show ∀ x ∈ txn.savepoints.drop 1, _
    rw [hnil]
    exact fun _ h => absurd h List.not_mem_nil

theorem flagSpan_savepoint {p : Span}
    (hp : p = flagSpan ["SAVEPOINT s", "INSERT INTO t VALUES (FALSE)", "ROLLBACK TO s"]) :
    TransactionStretch flagEnv 1 p where
  opens := hp ▸ rfl
  closes := hp ▸ rfl
  succeeds := by
    subst hp
    decide +kernel
  anchored := by
    subst hp
    exact flagDb_anchored
  steps := by
    obtain ⟨hsplit, hbefore, hafter⟩ :
        p.steps flagEnv 1 = (p.steps flagEnv 1).take 20 ++ .resetTxn :: (p.steps flagEnv 1).drop 21 ∧
        Along (Keeps flagEnv) (p.opened flagEnv 1) ((p.steps flagEnv 1).take 20) ∧
        Along (Keeps flagEnv) (apply (after (p.opened flagEnv 1) ((p.steps flagEnv 1).take 20)) .resetTxn)
          ((p.steps flagEnv 1).drop 21) := by
      subst hp
      decide +kernel
    have hanchored : Anchored flagEnv (after (p.opened flagEnv 1) ((p.steps flagEnv 1).take 20)) := by
      subst hp
      exact flag_anchored (by decide +kernel)
    have hsame : SameContents (p.point flagEnv) (after (p.opened flagEnv 1) ((p.steps flagEnv 1).take 20)) := by
      subst hp
      refine ⟨by decide +kernel, ?_, by decide +kernel⟩
      intro t ht
      obtain ⟨m, hm⟩ := Map.mem_iff_lookup.mp ht
      rw [(flagDb_table hm).1]
      decide +kernel
    rw [hsplit, along_append, along_cons]
    exact ⟨hbefore.mono fun _ _ => Or.inl, Or.inr ⟨rfl, hanchored, hsame⟩, hafter.mono fun _ _ => Or.inl⟩
  ready := by
    subst hp
    exact flag_readyToRollBack (by decide +kernel)

/-- An INSERT alone is undone by both. -/
theorem savepoint_and_begin_restored_insert :
    (((flagSavepoint ["INSERT INTO t VALUES (FALSE)"]).closed flagEnv 1).relation "t" =
        some ⟨flagSchema, [[.bool true]]⟩) ∧
      ((flagSpan ["SAVEPOINT s", "INSERT INTO t VALUES (FALSE)", "ROLLBACK TO s"]).closed flagEnv 1).relation "t" =
        some ⟨flagSchema, [[.bool true]]⟩ := by
  obtain ⟨hq, hp⟩ := savepoint_and_begin_restored flagSavepoint_insert (flagSpan_savepoint rfl)
  constructor
  · exact (hq.rows "t" (by decide +kernel)).trans (by decide +kernel)
  · exact (hp.rows "t" (by decide +kernel)).trans (by decide +kernel)

end PotatoDB
