import PotatoDB.Frames
import PotatoDB.RollbackSound
import PotatoDB.Server

/-!
# Transactions of several clients

The engine has one transaction, whoever began it. The clients are isolated from each other as long
as each of them leaves the engine to the client whose transaction is open.
-/

namespace PotatoDB

open Oplog Oplog.Prog
open Machine (apply)

section
variable {κ : Type} (env : Env) (fuel : Nat)

/-- COMMIT and ROLLBACK end a transaction that is the client's own: it began it, all statements since are its
own, and the rows inserted before are in files. BEGIN succeeds for a client without a transaction. -/
structure Isolated (s : Served κ) (r : Request κ) : Prop where
  ends : isReadOnlyQuery env r.sql = false → env.parse r.sql = .commit ∨ env.parse r.sql = .rollback →
    s.db.activeTxn.isSome → s.owner = some r.client ∧ (∀ c ∈ s.since, c = r.client) ∧ s.waiting = []
  begins : isReadOnlyQuery env r.sql = false → env.parse r.sql = .startTransaction → s.owner ≠ some r.client →
    Succeeds (arrive env r.sql) s.db → Succeeds (r.program env fuel) s.db

/-- The text flushes every buffered table: it names all of them or none. -/
def FlushesAll (s : Db) (sql : String) : Prop :=
  needsNoFlush (upperText env sql) = false ∧
    ((∀ t ∈ s.writeBuffer.keys, (env.toUppercase t).toList <:+: (upperText env sql).toList) ∨
      ∀ t ∈ s.writeBuffer.keys, ¬ (env.toUppercase t).toList <:+: (upperText env sql).toList)

/-- While a transaction is open, other clients only query. A transaction is begun by BEGIN, not by a trigger, and
what is in the buffer then is flushed first. -/
structure Orderly (s : Served κ) (r : Request κ) : Prop where
  own : isReadOnlyQuery env r.sql = false → s.db.activeTxn.isSome → s.owner = some r.client
  begun : ((r.program env fuel).ops s.db).any (·.isBegin) → env.parse r.sql = .startTransaction
  flushed : env.parse r.sql = .startTransaction → FlushesAll env s.db r.sql

end

section
variable {κ : Type} {env : Env} {fuel : Nat}

/-! ## BEGIN -/

theorem flushedFor_keys {s : Db} {sql : String} (h : FlushesAll env s sql) :
    flushedFor env s (upperText env sql) = s.writeBuffer.keys := by
  unfold flushedFor
  dsimp only
  rcases h.2 with hall | hnone
  · have hf : (s.writeBuffer.keys.filter fun n =>
        decide ((env.toUppercase n).toList <:+: (upperText env sql).toList)) = s.writeBuffer.keys :=
      List.filter_eq_self.mpr fun t ht => decide_eq_true (hall t ht)
    rw [hf, ite_self]
  · have hf : (s.writeBuffer.keys.filter fun n =>
        decide ((env.toUppercase n).toList <:+: (upperText env sql).toList)) = [] :=
      List.filter_eq_nil_iff.mpr fun t ht => by simpa using hnone t ht
    rw [hf]
    rfl

theorem keys_arrive {s : Db} {sql : String} (hp : env.parse sql = .startTransaction) (hf : FlushesAll env s sql)
    (h : Succeeds (arrive env sql) s) : ((arrive env sql).final s).writeBuffer.keys = [] := by
  rw [List.eq_nil_iff_forall_not_mem]
  intro t ht
  have hnone : ((arrive env sql).final s).writeBuffer.lookup t = none := by
    rw [lookup_arrive sql t h]
    have hall : flushedOnArrival env s sql = s.writeBuffer.keys := by
      unfold flushedOnArrival
      rw [hp, ← flushedFor_keys hf]
      simp [hf.1]
    rw [hall]
    by_cases hin : t ∈ s.writeBuffer.keys
    · rw [if_pos hin]
    · rw [if_neg hin]
      exact AList.lookup_eq_none.mpr hin
  exact AList.lookup_eq_none.mp hnone ht

theorem succeeds_handleBegin {s : Db} (h : s.activeTxn = none) : Succeeds handleBegin s := by
  unfold handleBegin
  rw [succeeds_get_bind, h]
  simp only [Option.isSome_none, Bool.false_eq_true, if_false]
  exact ⟨_, rfl⟩

theorem succeeds_begin {s : Db} {sql : String} (hp : env.parse sql = .startTransaction) (ht : s.activeTxn = none)
    (h : Succeeds (arrive env sql) s) : Succeeds (execute env (fuel + 1) sql) s := by
  obtain ⟨u, hu⟩ := h
  have hnone : ((arrive env sql).final s).activeTxn = none := by
    rw [← ht]
    exact congrArg Settled.activeTxn (arrive_settled sql s)
  obtain ⟨r, hr⟩ := succeeds_handleBegin hnone
  unfold execute
  rw [succeeds_bind_of_ok hu, hp, succeeds_bind]
  refine ⟨.ok r, congrArg Except.ok hr, ?_⟩
  unfold leave
  simp only [Statement.returnsEarly, Statement.isMutating, Bool.false_eq_true, if_false, Bool.false_and]
  rw [succeeds_bind]
  refine ⟨(), ?_, r, rfl⟩
  unfold catalogFlushIfDirty
  rw [result_bind, result_get]
  dsimp only
  split <;> rfl

/-! ## Requests that begin a transaction -/

theorem Op.Upkeep.not_begin {o : Op} (h : o.Upkeep) : o.isBegin = false := by
  obtain ⟨table, (h | rfl) | rfl⟩ := h
  · cases o <;> first | rfl | exact h.elim
  · rfl
  · rfl

theorem upkeep_executeReadonly (sql : String) : Emits Op.Upkeep (executeReadonly env sql) := by
  unfold executeReadonly
  split
  · exact emits_throw _
  · exact upkeep_flushAll.bind fun _ => (emits_get.bind fun _ => emits_check _).bind fun _ => emits_pure _

/-- A transaction is open after operations none of which begins one only if it was open before. -/
theorem activeTxn_of_not_begin : ∀ {os : List Op} {s : Db}, os.any (·.isBegin) = false → s.activeTxn = none →
    (after s os).activeTxn = none
  | [], _, _, h => h
  | o :: os, s, hos, h => by
    rw [List.any_cons, Bool.or_eq_false_iff] at hos
    refine activeTxn_of_not_begin (s := apply s o) hos.2 ?_
    cases o with
    | beginTxn id => cases hos.1
    | backupTable _ | deferDelete _ | pushSavepoint _ | truncateSavepoints _ | resetTxn =>
      show s.activeTxn.map _ = none
      rw [h]
      rfl
    | _ => first | exact h | rfl

/-- BEGIN changes no buffer. -/
theorem writeBuffer_begin (s : Db) (sql : String) :
    (Prog.final (attempt (dispatch env (execute env fuel) sql .startTransaction) >>=
      leave env .startTransaction) s).writeBuffer = s.writeBuffer := by
  refine Emits.final_eq (P := fun o => ∀ s : Db, (apply s o).writeBuffer = s.writeBuffer) (g := Db.writeBuffer)
    ?_ (fun s o h => h s) s
  refine Emits.bind (Emits.attempt ?_) fun r => ?_
  · show Emits _ handleBegin
    unfold handleBegin nextTxnId
    refine emits_get.bind fun db => ?_
    split
    · exact emits_throw _
    · refine (emits_emit fun _ => rfl).bind fun _ => Emits.bind ?_ fun _ => ?_
      · exact emits_get.bind fun _ => (emits_emit fun _ => rfl).bind fun _ => emits_pure _
      · exact (emits_emit fun _ => rfl).bind fun _ => emits_pure _
  · unfold leave
    simp only [Statement.returnsEarly, Statement.isMutating, Bool.false_eq_true, if_false, Bool.false_and]
    refine Emits.bind ?_ fun _ => emits_check _
    unfold catalogFlushIfDirty
    refine emits_get.bind fun db => ?_
    split
    · exact emits_emit fun _ => rfl
    · exact emits_pure _

theorem upkeep_not_begins {α : Type} {p : M α} (h : Emits Op.Upkeep p) (s : Db) :
    (p.ops s).any (·.isBegin) = false := by
  rw [List.any_eq_false]
  intro o ho
  rw [(h s o ho).not_begin]
  exact Bool.false_ne_true

/-- When a request has begun a transaction, all rows inserted before are in files. -/
theorem keys_begun {s : Db} {r : Request κ} (h : ((r.program env fuel).ops s).any (·.isBegin) = true)
    (hp : env.parse r.sql = .startTransaction) (hf : FlushesAll env s r.sql) :
    ((r.program env fuel).final s).writeBuffer.keys = [] := by
  unfold Request.program Processor.runQuery at *
  by_cases hr : isReadOnlyQuery env r.sql = true
  · rw [if_pos hr, upkeep_not_begins (upkeep_executeReadonly _)] at h
    cases h
  · rw [if_neg hr] at h ⊢
    cases fuel with
    | zero => cases h
    | succ fuel =>
      unfold execute at h ⊢
      rw [ops_bind] at h
      rw [final_bind]
      cases ha : (arrive env r.sql).result s with
      | error e =>
        rw [ha] at h
        dsimp only at h
        rw [upkeep_not_begins (upkeep_arrive _)] at h
        cases h
      | ok u =>
        dsimp only
        rw [hp, writeBuffer_begin]
        exact keys_arrive hp hf ⟨u, ha⟩

/-! ## Runs -/

/-- The open transaction belongs to the client that made all statements since it began. -/
structure Owned (s : Served κ) : Prop where
  closed : s.db.activeTxn = none → s.owner = none
  opened : s.db.activeTxn.isSome → s.owner.isSome
  since : ∀ c ∈ s.since, s.owner = some c
  waiting : s.waiting = []

theorem owned_step {s : Served κ} {r : Request κ} (h : Owned s) (ho : Orderly env fuel s r) :
    Owned (s.step env fuel r) := by
  unfold Served.step
  dsimp only
  by_cases hn : ((r.program env fuel).final s.db).activeTxn.isNone = true
  · rw [if_pos hn]
    refine ⟨fun _ => rfl, fun hs => ?_, nofun, rfl⟩
    rw [Option.isNone_iff_eq_none.mp hn] at hs
    cases hs
  · rw [if_neg hn]
    have hopen : ((r.program env fuel).final s.db).activeTxn.isSome := by
      rwa [Option.isNone_iff_eq_none, ← ne_eq, ← Option.isSome_iff_ne_none] at hn
    have hclosed : ((r.program env fuel).final s.db).activeTxn ≠ none := Option.isSome_iff_ne_none.mp hopen
    by_cases hb : ((r.program env fuel).ops s.db).any (·.isBegin) = true
    · rw [if_pos hb]
      exact ⟨fun hc => absurd hc hclosed, fun _ => rfl, nofun,
        keys_begun hb (ho.begun hb) (ho.flushed (ho.begun hb))⟩
    · rw [if_neg hb]
      -- nothing has begun, so the transaction is the one of before
      rw [Bool.not_eq_true] at hb
      have hbefore : s.db.activeTxn.isSome := by
        rw [Option.isSome_iff_ne_none]
        exact fun hc => hclosed (activeTxn_of_not_begin hb hc)
      refine ⟨fun hc => absurd hc hclosed, fun _ => h.opened hbefore, ?_, h.waiting⟩
      intro c hc
      by_cases hr : isReadOnlyQuery env r.sql = true
      · rw [if_pos hr] at hc
        exact h.since c hc
      · rw [if_neg hr, List.mem_append, List.mem_singleton] at hc
        rcases hc with hc | rfl
        · exact h.since c hc
        · exact ho.own (Bool.not_eq_true _ ▸ hr) hbefore

theorem Owned.isolated {s : Served κ} {r : Request κ} (h : Owned s) (ho : Orderly env (fuel + 1) s r) :
    Isolated env (fuel + 1) s r := by
  constructor
  · intro hr _ hopen
    have hown := ho.own hr hopen
    refine ⟨hown, fun c hc => ?_, h.waiting⟩
    have := h.since c hc
    rw [hown] at this
    exact (Option.some.inj this).symm
  · intro hr hp hne ha
    have hnone : s.db.activeTxn = none := by
      by_contra hsome
      exact hne (ho.own hr (Option.isSome_iff_ne_none.mpr hsome))
    unfold Request.program Processor.runQuery
    rw [hr, if_neg Bool.false_ne_true]
    exact succeeds_begin hp hnone ha

theorem owned_run : ∀ {rs : List (Request κ)} {s : Served κ}, Owned s →
    s.Each env (fuel + 1) (Orderly env (fuel + 1)) rs → s.Each env (fuel + 1) (Isolated env (fuel + 1)) rs
  | [], _, _, _ => trivial
  | _ :: _, _, h, ho => ⟨h.isolated ho.1, owned_run (owned_step h ho.1) ho.2⟩

instance decidableOrderly [DecidableEq κ] (s : Served κ) (r : Request κ) : Decidable (Orderly env fuel s r) :=
  decidable_of_iff ((isReadOnlyQuery env r.sql = false → s.db.activeTxn.isSome → s.owner = some r.client) ∧
      (((r.program env fuel).ops s.db).any (·.isBegin) → env.parse r.sql = .startTransaction) ∧
      (env.parse r.sql = .startTransaction → needsNoFlush (upperText env r.sql) = false ∧
        ((∀ t ∈ s.db.writeBuffer.keys, (env.toUppercase t).toList <:+: (upperText env r.sql).toList) ∨
          ∀ t ∈ s.db.writeBuffer.keys, ¬ (env.toUppercase t).toList <:+: (upperText env r.sql).toList)))
    ⟨fun h => ⟨h.1, h.2.1, h.2.2⟩, fun h => ⟨h.own, h.begun, h.flushed⟩⟩

instance decidableEach {P : Served κ → Request κ → Prop} [∀ s r, Decidable (P s r)] :
    (s : Served κ) → (rs : List (Request κ)) → Decidable (s.Each env fuel P rs)
  | _, [] => isTrue trivial
  | s, r :: rs =>
    have : Decidable ((s.step env fuel r).Each env fuel P rs) := decidableEach (s.step env fuel r) rs
    inferInstanceAs (Decidable (P s r ∧ (s.step env fuel r).Each env fuel P rs))

end

/-- A request of the client of a number. -/
def flagRequest (client : Nat) (sql : String) : Request Nat := ⟨client, sql⟩

/-- The requests of two clients on the table of `flagDb`. -/
def flagServed (rs : List (Request Nat)) : Served Nat := (Served.start flagDb).run flagEnv 2 rs

end PotatoDB
