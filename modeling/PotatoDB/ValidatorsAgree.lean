import PotatoDB.ValidatorsSound

/-!
# Where the two validators agree

The incremental check of incoming rows against the whole-table queries on the table with these
rows in it. NULLs in UNIQUE keys part them: the incremental check leaves such keys out, GROUP BY
puts them into one group.
-/

namespace PotatoDB

open Oplog Oplog.Prog

theorem nodup_map_append_iff {α β : Type} {f : α → β} {as bs : List α} (ha : as.Nodup) :
    ((bs.map f).Nodup ∧ ∀ b ∈ bs, f b ∉ as.map f) ↔
      (as ++ bs).Nodup ∧ ¬ ∃ b ∈ bs, ∃ c ∈ as ++ bs, b ≠ c ∧ f b = f c := by
  constructor
  · rintro ⟨hnd, hdisj⟩
    have hinj := List.inj_on_of_nodup_map hnd
    refine ⟨List.nodup_append.mpr ⟨ha, hnd.of_map, ?_⟩, ?_⟩
    · rintro a haa b hb rfl
      exact hdisj a hb (List.mem_map_of_mem haa)
    · rintro ⟨b, hb, c, hc, hne, heq⟩
      rcases List.mem_append.mp hc with hc | hc
      · exact hdisj b hb (heq ▸ List.mem_map_of_mem hc)
      · exact hne (hinj hb hc heq)
  · rintro ⟨hnd, hcol⟩
    obtain ⟨-, hb, hdisj⟩ := List.nodup_append.mp hnd
    refine ⟨hb.map_on fun x hx y hy he => ?_, fun b hbb hm => ?_⟩
    · exact Classical.byContradiction fun hne => hcol ⟨x, hx, y, List.mem_append_right _ hy, hne, he⟩
    · obtain ⟨a, haa, he⟩ := List.mem_map.mp hm
      exact hcol ⟨b, hbb, a, List.mem_append_left _ haa, (hdisj a haa b hbb).symm, he.symm⟩

/-! ## One constraint -/

/-- Different keys without NULL, one of them of an incoming row, have the same text. -/
def Collides (env : Env) (schema : Schema) (stored incoming : List Row) (c : TableConstraint) : Prop :=
  ∃ k ∈ fullKeys schema.names c.keyColumns incoming,
    ∃ k' ∈ fullKeys schema.names c.keyColumns stored ++ fullKeys schema.names c.keyColumns incoming,
      k ≠ k' ∧ keyText env k = keyText env k'

section
variable {env : Env} {schema : Schema} {stored incoming : List Row}

theorem not_collides_of_no_key {c : TableConstraint} (hc : c.keyColumns = []) :
    ¬ Collides env schema stored incoming c := by
  rintro ⟨k, hk, k', hk', hne, -⟩
  have hnil : ∀ {rows : List Row} {k : List Value}, k ∈ fullKeys schema.names c.keyColumns rows → k = [] := by
    intro rows k hk
    obtain ⟨row, -, rfl⟩ := List.mem_map.mp (mem_fullKeys.mp hk).1
    rw [hc]
    rfl
  refine hne ((hnil hk).trans ?_)
  rcases List.mem_append.mp hk' with h | h
  · exact (hnil h).symm
  · exact (hnil h).symm

theorem keysPass_iff {required : Bool} {columns : List String} (ht : ∀ row ∈ stored, row.Typed)
    (hstored : (fullKeys schema.names columns stored).Nodup)
    (hreq : required = true → ∀ k ∈ keys schema.names columns stored, hasNull k = false) :
    KeysPass env required schema.names columns stored incoming ↔
      ((required = true → ∀ k ∈ keys schema.names columns (stored ++ incoming), hasNull k = false) ∧
        (fullKeys schema.names columns (stored ++ incoming)).Nodup) ∧
      ¬ ∃ k ∈ fullKeys schema.names columns incoming,
        ∃ k' ∈ fullKeys schema.names columns stored ++ fullKeys schema.names columns incoming,
          k ≠ k' ∧ keyText env k = keyText env k' := by
  have htexts : keyTexts env (!required) (keys schema.names columns stored) =
      (fullKeys schema.names columns stored).map (keyText env) := by
    rw [keyTexts_keys ht]
    refine congrArg _ (List.filter_congr fun k hk => ?_)
    cases required with
    | false => rfl
    | true => simp [hreq rfl k hk]
  have hnull : (required = true → ∀ k ∈ keys schema.names columns (stored ++ incoming), hasNull k = false) ↔
      (required = true → ∀ k ∈ keys schema.names columns incoming, hasNull k = false) := by
    refine imp_congr_right fun hr => ?_
    rw [keys_append, List.forall_mem_append]
    exact and_iff_right (hreq hr)
  unfold KeysPass
  rw [htexts, nodup_map_append_iff hstored, hnull, fullKeys_append, and_assoc]

theorem satisfies_fullKeys {columns : List String}
    (h : (keys schema.names columns stored).Nodup) : (fullKeys schema.names columns stored).Nodup :=
  (nodup_iff_full_null.mp h).1

theorem fullKeys_of_no_null {names columns : List String} {rows : List Row}
    (h : ∀ k ∈ keys names columns rows, hasNull k = false) : fullKeys names columns rows = keys names columns rows :=
  List.filter_eq_self.mpr fun k hk => by rw [h k hk]; rfl

/-- **On a table that satisfies a constraint, rows pass its check when the table satisfies it with
them and no two keys have one text.** -/
theorem passes_iff {c : TableConstraint} (ht : ∀ row ∈ stored, row.Typed) (hc : Satisfies env schema stored c) :
    Passes env schema stored incoming c ↔
      Satisfies env schema (stored ++ incoming) c ∧ ¬ Collides env schema stored incoming c := by
  cases c with
  | primaryKey columns =>
    refine (keysPass_iff ht (satisfies_fullKeys hc.2) fun _ => hc.1).trans (and_congr_left fun _ => ?_)
    refine ⟨fun ⟨hn, hd⟩ => ⟨hn rfl, ?_⟩, fun ⟨hn, hd⟩ => ⟨fun _ => hn, satisfies_fullKeys hd⟩⟩
    rwa [fullKeys_of_no_null (hn rfl)] at hd
  | unique name columns =>
    have hreq : false = true → ∀ k ∈ keys schema.names columns stored, hasNull k = false := nofun
    refine (keysPass_iff ht hc hreq).trans (and_congr_left fun _ => ?_)
    exact and_iff_right nofun
  | check name expr =>
    rw [and_iff_left (not_collides_of_no_key rfl)]
    show incoming = [] ∨ CheckHolds env expr schema incoming ↔ CheckHolds env expr schema (stored ++ incoming)
    unfold CheckHolds
    rw [List.forall_mem_append]
    constructor
    · rintro (rfl | h)
      · exact ⟨hc.1, hc.2, nofun⟩
      · exact ⟨h.1, hc.2, h.2⟩
    · exact fun h => Or.inr ⟨h.1, h.2.2⟩
  | foreignKey name columns refTable refColumns onDelete =>
    exact (and_iff_right trivial).symm.trans (and_congr_right fun _ => iff_of_true trivial (not_collides_of_no_key rfl))

end

/-! ## The table with the rows in it -/

/-- The rows of the batches in one more file of the table. -/
def Db.withRows (db : Db) (table : String) (targets : List String) (batches : List RecordBatch) : Db :=
  match db.ctx.lookup table with
  | some p => Machine.apply db (Op.putFile p.dir ⟨targets, allRows batches, 0⟩)
  | none => db

/-- The rows of the batches in the order of the table's columns. -/
def incomingRows (targets names : List String) (batches : List RecordBatch) : List Row :=
  (allRows batches).map (Row.reorder targets names)

theorem Store.read_file (path : ObjPath) (f : ParquetFile) (columns : List String) :
    Store.read [(path, f)] path.dir columns = f.read columns := by
  unfold Store.read Store.list
  rw [List.filter_cons_of_pos (by simp)]
  simp

section
variable {env : Env} {db : Db} {table : String} {m : TableMeta} {r : Relation} {targets : List String}
  {schema : Schema} {batches : List RecordBatch}

theorem relation_withRows (hr : db.relation table = some r) :
    (db.withRows table targets batches).relation table =
      some ⟨r.schema, r.rows ++ incomingRows targets r.schema.names batches⟩ := by
  obtain ⟨p, hp, rfl⟩ := Option.map_eq_some_iff.mp hr
  unfold Db.withRows
  simp only [hp]
  unfold Db.relation
  show Option.map (fun q : Provider => _) (db.ctx.lookup table) = _
  rw [hp, Option.map_some]
  show some (Relation.mk p.schema (Store.read (db.store ++ [(⟨p.dir, db.nextFile⟩, _)]) p.dir _)) = _
  rw [Store.read_append, Store.read_file ⟨p.dir, db.nextFile⟩]
  rfl

theorem catalog_withRows : (db.withRows table targets batches).catalog = db.catalog := by
  unfold Db.withRows
  cases db.ctx.lookup table <;> rfl

/-! ## The validators -/

/-- The incremental check accepts the batches: before the rows are written and after. -/
def BatchAccepts (env : Env) (db : Db) (table : String) (targets : List String) (batches : List RecordBatch) :
    Prop :=
  Succeeds (validateConstraintsBatch env table targets batches .beforeInsert) db ∧
    Succeeds (validateConstraintsBatch env table targets batches .afterInsert) (db.withRows table targets batches)

/-- The whole-table queries accept the contents of a table. -/
def WholeAccepts (env : Env) (s : Db) (table : String) : Prop :=
  Succeeds (validateTableConstraints table) s ∧ Succeeds (validateCheckConstraints env table) s

/-- The columns of a constraint hold the same values in both states. -/
def SameKeys (s t : Db) (table : String) (columns : List String) : Prop :=
  ∃ r r', s.relation table = some r ∧ t.relation table = some r' ∧ r'.schema = r.schema ∧
    (keys r.schema.names columns r'.rows).Perm (keys r.schema.names columns r.rows)

/-- What a statement that does not touch the columns of a constraint leaves. -/
def Untouched (env : Env) (s t : Db) (table : String) : TableConstraint → Prop
  | .primaryKey columns | .unique _ columns => SameKeys s t table columns
  | .check _ expr => ∃ r r', s.relation table = some r ∧ t.relation table = some r' ∧ r'.schema = r.schema ∧
      (r'.rows.map fun row => env.evalCheck expr (r.schema.names.zip row)).Perm
        (r.rows.map fun row => env.evalCheck expr (r.schema.names.zip row))
  | .foreignKey _ columns refTable refColumns _ => SameKeys s t table columns ∧ SameKeys s t refTable refColumns

theorem nil_passes {c : TableConstraint} {stored : List Row} : Passes env schema stored [] c := by
  cases c with
  | primaryKey columns | unique name columns => exact ⟨fun _ => nofun, List.nodup_nil, nofun⟩
  | check name expr => exact Or.inl rfl
  | foreignKey => trivial

theorem batchAccepts_iff (hn : ChecksByName env) (h : Supplies db table m r targets schema batches)
    (hT : ∀ c ∈ m.constraints, Satisfies env r.schema r.rows c) :
    BatchAccepts env db table targets batches ↔ ∀ c ∈ m.constraints,
      (Satisfies env r.schema (r.rows ++ incomingRows targets r.schema.names batches) c ∧
        ¬ Collides env r.schema r.rows (incomingRows targets r.schema.names batches) c) ∧
      ForeignKeyHolds table (db.withRows table targets batches) c := by
  have hbefore : Succeeds (validateConstraintsBatch env table targets batches .beforeInsert) db ↔
      ∀ c ∈ m.constraints, Passes env r.schema r.rows (incomingRows targets r.schema.names batches) c := by
    unfold validateConstraintsBatch
    by_cases hb : batches = []
    · rw [if_pos ⟨hb, rfl⟩, hb]
      exact iff_of_true (succeeds_pure _) fun c _ => nil_passes
    · rw [if_neg fun he => hb he.1, succeeds_get_bind]
      simp only [h.catalog]
      exact validateConstraintsLoop_iff h hn hT (loaded_db h) fun _ hc => hc
  have hafter : Succeeds (validateConstraintsBatch env table targets batches .afterInsert)
      (db.withRows table targets batches) ↔
      ∀ c ∈ m.constraints, ForeignKeyHolds table (db.withRows table targets batches) c := by
    unfold validateConstraintsBatch
    rw [if_neg (by simp), succeeds_get_bind, catalog_withRows]
    simp only [h.catalog]
    exact validateConstraintsLoop_after
  unfold BatchAccepts
  rw [hbefore, hafter, ← forall₂_and]
  exact forall₂_congr fun c hc => and_congr_left fun _ => passes_iff h.storedRows (hT c hc)

theorem typed_keys {names columns : List String} {rows : List Row} (ht : ∀ row ∈ rows, row.Typed) :
    ∀ k ∈ keys names columns rows, Value.nullArray ∉ k := by
  intro k hk
  obtain ⟨row, hrow, rfl⟩ := List.mem_map.mp hk
  exact (ht row hrow).keyOf

theorem withRows_typed (h : Supplies db table m r targets schema batches) :
    ∀ row ∈ r.rows ++ incomingRows targets r.schema.names batches, row.Typed := by
  rw [List.forall_mem_append]
  exact ⟨h.storedRows, reorder_typed h⟩

theorem wholeAccepts_iff (h : Supplies db table m r targets schema batches) :
    WholeAccepts env (db.withRows table targets batches) table ↔ ∀ c ∈ m.constraints,
      Satisfies env r.schema (r.rows ++ incomingRows targets r.schema.names batches) c ∧
      ¬ NullTwins r.schema (r.rows ++ incomingRows targets r.schema.names batches) c ∧
      ForeignKeyHolds table (db.withRows table targets batches) c := by
  have hm : (db.withRows table targets batches).catalog.tables.lookup table = some m := by
    rw [catalog_withRows]
    exact h.catalog
  unfold WholeAccepts
  rw [validators_iff hm]
  exact forall₂_congr fun c hc =>
    accepted_iff (relation_withRows h.relation) (h.wellFormed c hc) (typed_keys (withRows_typed h))

/-! ## What a later statement finds -/

/-- **A statement that leaves the columns of a constraint alone does not make it fail.** -/
theorem accepted_untouched {s t : Db} {c : TableConstraint} (hr : s.relation table = some r)
    (hw : c.WellFormed r.schema.names) (ht : ∀ k ∈ keys r.schema.names c.keyColumns r.rows, Value.nullArray ∉ k)
    (hu : Untouched env s t table c) (ha : Accepted env table s c) : Accepted env table t c := by
  have hs := (accepted_iff hr hw ht).mp ha
  have htyped {r' : Relation} (hsch : r'.schema = r.schema)
      (hp : (keys r.schema.names c.keyColumns r'.rows).Perm (keys r.schema.names c.keyColumns r.rows)) :
      ∀ k ∈ keys r'.schema.names c.keyColumns r'.rows, Value.nullArray ∉ k := by
    intro k hk
    rw [hsch] at hk
    exact ht k (hp.mem_iff.mp hk)
  cases c with
  | primaryKey columns =>
    obtain ⟨r₀, r', hr₀, hr', hsch, hp⟩ := hu
    obtain rfl : r = r₀ := Option.some.inj (hr.symm.trans hr₀)
    refine (accepted_iff hr' (hsch ▸ hw) (htyped hsch hp)).mpr ⟨?_, not_false, trivial⟩
    obtain ⟨hnull, hnd⟩ := hs.1
    rw [hsch]
    exact ⟨fun k hk => hnull k (hp.mem_iff.mp hk), hp.nodup_iff.mpr hnd⟩
  | unique name columns =>
    obtain ⟨r₀, r', hr₀, hr', hsch, hp⟩ := hu
    obtain rfl : r = r₀ := Option.some.inj (hr.symm.trans hr₀)
    refine (accepted_iff hr' (hsch ▸ hw) (htyped hsch hp)).mpr ⟨?_, ?_, trivial⟩
    · rw [hsch]
      exact (hp.filter _).nodup_iff.mpr hs.1
    · rw [hsch]
      intro hn
      refine hs.2.1 fun hnd => hn ?_
      exact (hp.filter _).nodup_iff.mpr hnd
  | check name expr =>
    obtain ⟨r₀, r', hr₀, hr', hsch, hp⟩ := hu
    obtain rfl : r = r₀ := Option.some.inj (hr.symm.trans hr₀)
    refine (accepted_iff hr' (hsch ▸ hw) (htyped hsch ?_)).mpr ⟨?_, not_false, trivial⟩
    · have hlen : r'.rows.length = r.rows.length := by simpa using hp.length_eq
      show ((r'.rows.map fun _ => []).Perm (r.rows.map fun _ => ([] : List Value)))
      rw [List.map_const', List.map_const', hlen]
    · obtain ⟨hplan, heval⟩ := hs.1
      show CheckHolds env expr r'.schema r'.rows
      rw [hsch]
      refine ⟨hplan, fun row hrow => ?_⟩
      obtain ⟨row', hrow', he⟩ := List.mem_map.mp
        (hp.mem_iff.mp (List.mem_map.mpr ⟨row, hrow, rfl⟩))
      rw [← he]
      exact heval row' hrow'
  | foreignKey name columns refTable refColumns onDelete =>
    obtain ⟨⟨r₀, r', hr₀, hr', hsch, hp⟩, q, q', hq, hq', hqs, hqp⟩ := hu
    obtain rfl : r = r₀ := Option.some.inj (hr.symm.trans hr₀)
    obtain ⟨hlen, hne, child, parent, hchild, hparent, hzero⟩ := hs.2.2
    obtain rfl : r = child := Option.some.inj (hr.symm.trans hchild)
    obtain rfl : q = parent := Option.some.inj (hq.symm.trans hparent)
    have hf : ForeignKeyHolds table t (.foreignKey name columns refTable refColumns onDelete) :=
      ⟨hlen, hne, r', q', hr', hq', countOrphans_perm hsch hp hqs hqp hzero⟩
    exact ⟨(validateForeignKey_iff onDelete).mpr hf, succeeds_pure ()⟩

/-! ## Agreement -/

/-- **The two validators agree, and no later statement fails on columns it leaves alone, exactly when
the rows violate a constraint anyway, or twin UNIQUE keys with NULL are there just when different
keys with one text are.** -/
theorem validators_agree_iff (hn : ChecksByName env) (h : Supplies db table m r targets schema batches)
    (hT : ∀ c ∈ m.constraints, Satisfies env r.schema r.rows c) :
    ((BatchAccepts env db table targets batches ↔ WholeAccepts env (db.withRows table targets batches) table) ∧
      (BatchAccepts env db table targets batches → ∀ c ∈ m.constraints, ∀ later,
        Untouched env (db.withRows table targets batches) later table c → Accepted env table later c)) ↔
    (∃ c ∈ m.constraints, ¬ (Satisfies env r.schema (r.rows ++ incomingRows targets r.schema.names batches) c ∧
        ForeignKeyHolds table (db.withRows table targets batches) c)) ∨
      ((∃ c ∈ m.constraints, NullTwins r.schema (r.rows ++ incomingRows targets r.schema.names batches) c) ↔
        ∃ c ∈ m.constraints, Collides env r.schema r.rows (incomingRows targets r.schema.names batches) c) := by
  have hb := batchAccepts_iff hn h hT
  have hw : WholeAccepts env (db.withRows table targets batches) table ↔ _ := wholeAccepts_iff h
  constructor
  · rintro ⟨hagree, -⟩
    by_cases hd : ∃ c ∈ m.constraints,
        ¬ (Satisfies env r.schema (r.rows ++ incomingRows targets r.schema.names batches) c ∧
          ForeignKeyHolds table (db.withRows table targets batches) c)
    · exact Or.inl hd
    · right
      have hall : ∀ c ∈ m.constraints, _ := fun c hc => Classical.byContradiction fun hne => hd ⟨c, hc, hne⟩
      have hb' : BatchAccepts env db table targets batches ↔
          ¬ ∃ c ∈ m.constraints, Collides env r.schema r.rows (incomingRows targets r.schema.names batches) c := by
        rw [hb]
        exact ⟨fun ha ⟨c, hc, hx⟩ => (ha c hc).1.2 hx,
          fun hx c hc => ⟨⟨(hall c hc).1, fun hcol => hx ⟨c, hc, hcol⟩⟩, (hall c hc).2⟩⟩
      have hw' : WholeAccepts env (db.withRows table targets batches) table ↔
          ¬ ∃ c ∈ m.constraints,
            NullTwins r.schema (r.rows ++ incomingRows targets r.schema.names batches) c := by
        rw [hw]
        exact ⟨fun ha ⟨c, hc, hx⟩ => (ha c hc).2.1 hx,
          fun hx c hc => ⟨(hall c hc).1, fun htw => hx ⟨c, hc, htw⟩, (hall c hc).2⟩⟩
      rw [← not_iff_not, ← hw', ← hb']
      exact hagree.symm
  · intro hcond
    have hagree : BatchAccepts env db table targets batches ↔
        WholeAccepts env (db.withRows table targets batches) table := by
      rw [hb, hw]
      rcases hcond with ⟨c, hc, hd⟩ | htwins
      · exact iff_of_false (fun ha => hd ⟨(ha c hc).1.1, (ha c hc).2⟩) fun ha => hd ⟨(ha c hc).1, (ha c hc).2.2⟩
      · constructor
        · intro ha c hc
          refine ⟨(ha c hc).1.1, fun htw => ?_, (ha c hc).2⟩
          obtain ⟨c', hc', hx⟩ := htwins.mp ⟨c, hc, htw⟩
          exact (ha c' hc').1.2 hx
        · intro ha c hc
          refine ⟨⟨(ha c hc).1, fun hx => ?_⟩, (ha c hc).2.2⟩
          obtain ⟨c', hc', htw⟩ := htwins.mpr ⟨c, hc, hx⟩
          exact (ha c' hc').2.1 htw
    refine ⟨hagree, fun ha c hc later hu => ?_⟩
    have hacc := (accepted_iff (relation_withRows h.relation) (h.wellFormed c hc)
      (typed_keys (withRows_typed h))).mpr (hw.mp (hagree.mp ha) c hc)
    exact accepted_untouched (relation_withRows h.relation) (h.wellFormed c hc) (typed_keys (withRows_typed h)) hu hacc

end

/-! ## Two NULLs in a UNIQUE column -/

def uniqueSchema : Schema := [⟨"a", "BIGINT", true⟩]

def uniqueMeta : TableMeta :=
  ⟨"t", [⟨"a", "BIGINT", true⟩], "t", [], none, none, [.unique "t_a_key" ["a"]], []⟩

/-- A table `t` with a UNIQUE column and one row, NULL. -/
def uniqueDb : Db := { Db.new with
  store := [(⟨["t"], 0⟩, ⟨["a"], [[.null]], 0⟩)]
  nextFile := 1
  catalog := CatalogData.empty.addTable uniqueMeta
  ctx := AList.insert "t" ⟨["t"], uniqueSchema⟩ ∅ }

theorem plain_checksByName : ChecksByName Env.plain := ⟨fun _ _ => rfl, fun _ _ => rfl⟩

theorem uniqueDb_supplies {v : Value} (hv : v ≠ .nullArray) :
    Supplies uniqueDb "t" uniqueMeta ⟨uniqueSchema, [[.null]]⟩ ["a"] uniqueSchema [⟨uniqueSchema, [[v]]⟩] where
  catalog := by decide
  relation := by decide
  nodup := by decide
  width := rfl
  columns := by decide
  batchNames := by decide
  batchSchema := by simp
  batchRows := by simpa [allRows, Row.Typed] using hv.symm
  storedRows := by simp [Row.Typed]
  wellFormed := by simp [uniqueMeta, TableConstraint.WellFormed, uniqueSchema, Schema.names]
  unloaded := fun _ _ _ _ => rfl
  ownEntry := by
    intro c hc c' hc' e e' he he' _
    obtain rfl := List.mem_singleton.mp hc
    obtain rfl := List.mem_singleton.mp hc'
    exact Option.some.inj (he.symm.trans he')

theorem uniqueDb_satisfies :
    ∀ c ∈ uniqueMeta.constraints, Satisfies Env.plain uniqueSchema [[.null]] c := by
  intro c hc
  obtain rfl := List.mem_singleton.mp hc
  show (fullKeys uniqueSchema.names ["a"] [[.null]]).Nodup
  decide

/-- **The incremental check accepts a second NULL, the whole-table queries reject it.** -/
theorem second_null_parts_validators :
    Supplies uniqueDb "t" uniqueMeta ⟨uniqueSchema, [[.null]]⟩ ["a"] uniqueSchema [⟨uniqueSchema, [[.null]]⟩] ∧
    (∀ c ∈ uniqueMeta.constraints, Satisfies Env.plain uniqueSchema [[.null]] c) ∧
    BatchAccepts Env.plain uniqueDb "t" ["a"] [⟨uniqueSchema, [[.null]]⟩] ∧
    ¬ WholeAccepts Env.plain (uniqueDb.withRows "t" ["a"] [⟨uniqueSchema, [[.null]]⟩]) "t" := by
  refine ⟨uniqueDb_supplies nofun, uniqueDb_satisfies, ?_, ?_⟩
  · unfold BatchAccepts
    decide +kernel
  · unfold WholeAccepts
    decide +kernel

/-- The validators agree on a row with a value. -/
theorem validators_agree_value :
    BatchAccepts Env.plain uniqueDb "t" ["a"] [⟨uniqueSchema, [[.bool true]]⟩] ↔
      WholeAccepts Env.plain (uniqueDb.withRows "t" ["a"] [⟨uniqueSchema, [[.bool true]]⟩]) "t" := by
  have hv : Value.bool true ≠ .nullArray := nofun
  refine ((validators_agree_iff plain_checksByName (uniqueDb_supplies hv) uniqueDb_satisfies).mpr
    (Or.inr (iff_of_false ?_ ?_))).1
  · rintro ⟨c, hc, hn⟩
    obtain rfl := List.mem_singleton.mp hc
    exact hn (by decide)
  · rintro ⟨c, hc, k, hk, k', hk', hne, -⟩
    obtain rfl := List.mem_singleton.mp hc
    have h₁ : k = [.bool true] := List.mem_singleton.mp (show k ∈ [[Value.bool true]] from hk)
    have h₂ : k' = [.bool true] := List.mem_singleton.mp (show k' ∈ [[Value.bool true]] from hk')
    exact hne (h₁.trans h₂.symm)

end PotatoDB
