import FcgiAppserver.CountedEffects
import FcgiAppserver.Responses
import FcgiAppserver.StmtReleases

namespace FcgiAppserver.Handlers

open ByteStrings ScopedEffects ScopedEffects.Act

structure Query where
  sql : String
  bound : List (Option Bytes)
deriving DecidableEq

def query (sql : String) : Query := ⟨sql, List.replicate (sql.toList.count '?') none⟩

def Query.bindString (q : Query) (colno : ℕ) (value : Bytes) : Query :=
  if colno < q.bound.length then { q with bound := q.bound.set colno (some value) } else q

instance (q : Query) : Decidable (none ∈ q.bound) := inferInstance

/-- The texts of a row's columns, where a column can be converted. -/
abbrev Row := List (Except DbException Bytes)

abbrev Reading := Except (Exception ⊕ Death)

def asString (row : Row) (colno : ℕ) : Reading Bytes :=
  match row[colno]? with
  | some column => column.mapError (fun e => .inl (.db e))
  | none => .ok []

/-- `s >> i`, which assigns nothing where there is only white space. -/
def readInt (s : Bytes) : Option Int32 :=
  if s.all isSpace then none else some (Int32.ofInt (max (-2 ^ 31) (min (2 ^ 31 - 1) (strtol s))))

def asInt (row : Row) (colno : ℕ) : Reading Int32 := do
  match readInt (← asString row colno) with
  | some i => .ok i
  | none => .error (.inr .undefined)

def Readable (row : Row) (colno : ℕ) : Prop := ∃ s, asString row colno = .ok s

def ReadsInt (row : Row) (colno : ℕ) : Prop := ∃ s i, asString row colno = .ok s ∧ readInt s = some i

/-- What the database does for one statement; every call of it may fail. -/
structure Reply where
  prepareFails : Option DbException
  executeFails : Option DbException
  rows : List Row
  -- the fetch after the rows fails or finds no data
  fetchFails : Option DbException
  closeFails : Option DbException
  fields : List Db.MysqlField
  -- the `actual_length` of a row's columns
  lengths : ℕ → ℕ → ℕ
  failedFetch : Db.MysqlFetch

/-- A pool and its database during one turn, which sends no query twice. -/
structure Pool where
  connectFails : Option DbException
  reply : Query → Reply

def dbConnHolder (pool : Pool) : Act Unit := failing (pool.connectFails.map .db)

structure Stmt extends Reply where
  query : Query

def Pool.stmt (pool : Pool) (q : Query) : Stmt := ⟨pool.reply q, q⟩

/-- The block of a statement, with the number of its fetches. -/
abbrev StmtAct := Counted Write Exception Death

namespace Reply

def mysqlFetch (stmt : Reply) (i : ℕ) : Db.MysqlFetch :=
  if i < stmt.rows.length then .row (stmt.lengths i) (fun _ => true)
  else if stmt.fetchFails = none then .noData
  else stmt.failedFetch

def fetches (stmt : Reply) (n : ℕ) : List Db.MysqlFetch := (List.range n).map stmt.mysqlFetch

/-- After `n` fetches `~DBStmt` deletes a buffer again. -/
def freesTwice (stmt : Reply) (n : ℕ) : Bool := Db.deletesTwice stmt.fields (stmt.fetches n)

/-- A block and the part of `~DBStmt` that deletes the columns' buffers. -/
def freeing {α : Type} (stmt : Reply) (x : StmtAct α) : Act α := killed (stmt.freesTwice x.count) .undefined x.act

end Reply

/-- A block that declares a `DBStmt`. `~DBStmt` throws when `mysql_stmt_close` fails. -/
def dbStmt {α : Type} (pool : Pool) (q : Query) (block : Stmt → StmtAct α) : Act α := do
  let stmt := pool.stmt q
  failing (stmt.prepareFails.map .db)
  inScope (stmt.closeFails.map .db) .terminated (stmt.freeing (block stmt))

namespace Stmt

variable {α β : Type}

def execute (stmt : Stmt) : Act Unit :=
  -- a parameter without a value is an indeterminate `MYSQL_BIND`
  if none ∈ stmt.query.bound then die .undefined else failing (stmt.executeFails.map .db)

def fetch (stmt : Stmt) : StmtAct (Option Row) := do
  Counted.tick
  match stmt.rows with
  | row :: _ => return some row
  | [] => do
    (failing (stmt.fetchFails.map .db) : Act Unit)
    return none

def fetchRow (step : β → Row → Act β) (b : β) (row : Row) : StmtAct β := do
  Counted.tick
  step b row

def whileFetch (stmt : Stmt) (step : β → Row → Act β) (b : β) : StmtAct β := do
  let b ← stmt.rows.foldlM (fetchRow step) b
  Counted.tick
  (failing (stmt.fetchFails.map .db) : Act Unit)
  return b

end Stmt

namespace Reply

def AllRows (stmt : Reply) (Good : Row → Prop) : Prop :=
  stmt.executeFails = none ∧ (∀ row ∈ stmt.rows, Good row) ∧ stmt.fetchFails = none

def RowsFail (stmt : Reply) (Good Bad : Row → Prop) : Prop :=
  stmt.executeFails ≠ none ∨ StopsAt Good Bad stmt.rows ∨ ((∀ row ∈ stmt.rows, Good row) ∧ stmt.fetchFails ≠ none)

/-- The loop leaves the first `m` rows behind and stops at the next one or at their end. -/
def GoesThrough (stmt : Reply) (Good : Row → Prop) (m : ℕ) : Prop :=
  (∀ row ∈ stmt.rows.take m, Good row) ∧ m ≤ stmt.rows.length ∧ ∀ row, stmt.rows[m]? = some row → ¬ Good row

/-- No `BLOB` column is left empty after a value. -/
def Released (stmt : Reply) (Good : Row → Prop) : Prop :=
  stmt.executeFails = none → ∀ m, stmt.GoesThrough Good m → stmt.freesTwice (m + 1) = false

def FirstRow (stmt : Reply) (Good : Row → Prop) : Prop :=
  stmt.executeFails = none ∧ (stmt.rows = [] → stmt.fetchFails = none) ∧ ∀ row ∈ stmt.rows.head?, Good row

def FirstFails (stmt : Reply) (Bad : Row → Prop) : Prop :=
  stmt.executeFails ≠ none ∨ (stmt.rows = [] ∧ stmt.fetchFails ≠ none) ∨ ∃ row ∈ stmt.rows.head?, Bad row

/-- `Whole` holds if the block of the statement runs to its end, `Cut` if it throws. -/
def Completes (stmt : Reply) (Whole : Prop) : Prop :=
  stmt.prepareFails = none ∧ stmt.closeFails = none ∧ Whole

def Throws (stmt : Reply) (Whole Cut : Prop) : Prop :=
  stmt.prepareFails ≠ none ∨ (stmt.closeFails = none ∧ Cut) ∨ (stmt.closeFails ≠ none ∧ Whole)

end Reply

theorem asString_error {row : Row} {colno : ℕ} :
    (∃ e, asString row colno = .error (.inl e)) ↔ ¬ Readable row colno := by
  rw [Readable, asString]
  cases row[colno]? with
  | none => simp
  | some column => cases column <;> simp [Except.mapError]

theorem asString_alive (row : Row) (colno : ℕ) (d : Death) : asString row colno ≠ .error (.inr d) := by
  rw [asString]
  cases row[colno]? with
  | none => simp
  | some column => cases column <;> simp [Except.mapError]

theorem asInt_of_text {row : Row} {colno : ℕ} {s : Bytes} (h : asString row colno = .ok s) :
    asInt row colno = match readInt s with
      | some i => .ok i
      | none => .error (.inr .undefined) := by
  rw [asInt, h]
  rfl

theorem asInt_ok {row : Row} {colno : ℕ} : (∃ i, asInt row colno = .ok i) ↔ ReadsInt row colno := by
  rw [ReadsInt]
  cases hs : asString row colno with
  | error e => simp [asInt, hs, bind, Except.bind]
  | ok s =>
    rw [asInt_of_text hs]
    cases hi : readInt s <;> simp [hi]

theorem asInt_error {row : Row} {colno : ℕ} :
    (∃ e, asInt row colno = .error (.inl e)) ↔ ¬ Readable row colno := by
  rw [← asString_error]
  cases hs : asString row colno with
  | error e => simp [asInt, hs, bind, Except.bind]
  | ok s =>
    rw [asInt_of_text hs]
    cases readInt s <;> simp

/-- The buffers that the model counts are those of the statement's own columns. -/
theorem freesTwice_iff (stmt : Reply) (n sizeofMysqlTime indeterminate : ℕ) : stmt.freesTwice n = false ↔
    ((Db.newStmt sizeofMysqlTime indeterminate stmt.fields).fetchAll (stmt.fetches n)).destroy.FreedOnce :=
  (Db.destroy_freedOnce_iff sizeofMysqlTime indeterminate stmt.fields (stmt.fetches n)).symm

theorem freesTwice_one (stmt : Reply) {n : ℕ} (h : n ≤ 1) : stmt.freesTwice n = false := by
  apply Db.deletesTwice_short
  rw [Reply.fetches, List.length_map, List.length_range]
  exact h

section

variable {α β : Type} {pool : Pool} {q : Query} {block : Stmt → StmtAct α}

theorem freeing_out (stmt : Reply) (x : StmtAct α) : (stmt.freeing x).out = x.act.out := killed_out

theorem freeing_eq {stmt : Reply} {x : StmtAct α} (h : x.count ≤ 1) : stmt.freeing x = x.act := by
  rw [Reply.freeing, freesTwice_one stmt h, killed_false]

theorem parameters_ofList {s : List Char} {n : ℕ} (h : s.count '?' = n) : (String.ofList s).toList.count '?' = n := by
  rw [String.toList_ofList, h]

theorem parameters_append {a b : String} {m n : ℕ} (ha : a.toList.count '?' = m) (hb : b.toList.count '?' = n) :
    (a ++ b).toList.count '?' = m + n := by
  rw [String.toList_append, List.count_append, ha, hb]

theorem query_bound {sql : String} (h : sql.toList.count '?' = 0) : none ∉ (query sql).bound := by
  rw [query, h]
  exact List.not_mem_nil

theorem bindString_sql (q : Query) (colno : ℕ) (value : Bytes) : (q.bindString colno value).sql = q.sql := by
  rw [Query.bindString]
  split <;> rfl

theorem bindString_bound {sql : String} (h : sql.toList.count '?' = 1) (value : Bytes) :
    none ∉ ((query sql).bindString 0 value).bound := by
  rw [query, h]
  simp [Query.bindString]

theorem stmt_toReply (pool : Pool) (q : Query) : (pool.stmt q).toReply = pool.reply q := rfl

theorem silent_dbStmt (h : (block (pool.stmt q)).act.Silent) : (dbStmt pool q block).Silent := by
  apply silent_bind (silent_failing _)
  intro _
  exact silent_inScope ((freeing_out _ _).trans h)

theorem completes_dbStmt {Whole : Prop} (hwhole : ((pool.stmt q).freeing (block (pool.stmt q))).Completes ↔ Whole) :
    (dbStmt pool q block).Completes ↔ (pool.reply q).Completes Whole := by
  rw [dbStmt, completes_bind_of (fun _ => completes_inScope), completes_failing, Reply.Completes,
    Option.map_eq_none_iff, Option.map_eq_none_iff]
  exact and_congr_right' (and_congr_right' hwhole)

theorem throws_dbStmt {Whole Cut : Prop} (hwhole : ((pool.stmt q).freeing (block (pool.stmt q))).Completes ↔ Whole)
    (hcut : ((pool.stmt q).freeing (block (pool.stmt q))).Throws ↔ Cut) :
    (dbStmt pool q block).Throws ↔ (pool.reply q).Throws Whole Cut := by
  rw [dbStmt, throws_bind_of (fun _ => throws_inScope), throws_failing, completes_failing, Reply.Throws, ← hwhole, ← hcut]
  simp only [ne_eq, Option.map_eq_none_iff, stmt_toReply]
  tauto

theorem dbStmt_done {a : α} (h : (dbStmt pool q block).ending = .done a) :
    (block (pool.stmt q)).act.ending = .done a := by
  obtain ⟨-, -, hscope⟩ := bind_ending_done.mp h
  exact killed_done (inScope_done hscope)

/-- A statement whose block writes cannot end in a failing close, one that is cut short cannot either. -/
theorem answerable_dbStmt {Fine : α → List Write → Prop} :
    Answerable Fine (do dbConnHolder pool; dbStmt pool q block) ↔
      pool.connectFails ≠ none ∨ (pool.reply q).prepareFails ≠ none ∨
        ((pool.reply q).closeFails = none ∧ Answerable Fine ((pool.stmt q).freeing (block (pool.stmt q)))) ∨
        ((pool.reply q).closeFails ≠ none ∧ ((pool.stmt q).freeing (block (pool.stmt q))).Completes ∧
          (block (pool.stmt q)).act.out = []) := by
  rw [dbConnHolder, answerable_failing, dbStmt, answerable_failing, answerable_inScope, freeing_out]
  simp only [ne_eq, Option.map_eq_none_iff, stmt_toReply]

theorem dbStmt_out (pool : Pool) (q : Query) (block : Stmt → StmtAct α)
    (hout : (block (pool.stmt q)).act.out = [] ∨ Begun (block (pool.stmt q)).act.out) :
    (do dbConnHolder pool; dbStmt pool q block : Act α).out = [] ∨
      Begun (do dbConnHolder pool; dbStmt pool q block : Act α).out := by
  have hinner : (dbStmt pool q block).out = [] ∨ Begun (dbStmt pool q block).out := by
    rw [dbStmt]
    cases (pool.stmt q).prepareFails with
    | some e => exact Or.inl rfl
    | none =>
      rw [Option.map_none, failing, pure_bind, inScope_out, freeing_out]
      exact hout
  rw [dbConnHolder]
  cases pool.connectFails with
  | some e => exact Or.inl rfl
  | none =>
    rw [Option.map_none, failing, pure_bind]
    exact hinner

end

section

variable {α β : Type} {stmt : Stmt} {step : β → Row → Act β} {Good Bad : Row → Prop}

theorem execute_eq (hbound : none ∉ stmt.query.bound) : stmt.execute = failing (stmt.executeFails.map .db) :=
  if_neg hbound

theorem silent_execute : stmt.execute.Silent := by
  rw [Stmt.execute]
  split
  · exact silent_die _
  · exact silent_failing _

theorem act_fetch : stmt.fetch.act =
    match stmt.rows with
    | row :: _ => pure (some row)
    | [] => do
      failing (stmt.fetchFails.map .db)
      return none := by
  rw [Stmt.fetch, Counted.act_bind, Counted.act_tick, pure_bind]
  cases stmt.rows with
  | nil => exact Counted.act_bind
  | cons row rows => rfl

theorem count_fetch : stmt.fetch.count = 1 := by
  rw [Stmt.fetch, Counted.count_bind_unused]
  · rfl
  · intro _
    cases stmt.rows with
    | nil => exact Counted.count_bind_unused (fun _ => rfl)
    | cons row rows => rfl

theorem silent_fetch : stmt.fetch.act.Silent := by
  rw [act_fetch]
  cases stmt.rows with
  | nil => exact silent_bind (silent_failing _) (fun _ => silent_pure _)
  | cons row rows => exact silent_pure _

theorem act_fetchRow (b : β) (row : Row) : (Stmt.fetchRow step b row).act = step b row := by
  rw [Stmt.fetchRow, Counted.act_bind, Counted.act_tick, pure_bind]
  rfl

theorem act_whileFetch (b : β) : (stmt.whileFetch step b).act = do
    let b ← stmt.rows.foldlM step b
    failing (stmt.fetchFails.map .db)
    return b := by
  rw [Stmt.whileFetch, Counted.act_bind, Counted.act_foldlM]
  simp only [act_fetchRow, Counted.act_bind, Counted.act_tick, pure_bind]
  rfl

theorem silent_whileFetch (h : ∀ b row, (step b row).Silent) (b : β) : (stmt.whileFetch step b).act.Silent := by
  rw [act_whileFetch]
  apply silent_bind (silent_foldlM h _ _)
  intro b'
  apply silent_bind (silent_failing _)
  intro _
  exact silent_pure b'

theorem count_fetchRow (b : β) (row : Row) : (Stmt.fetchRow step b row).count = 1 :=
  Counted.count_bind_done rfl

/-- Each row that the loop goes through is one fetch, and so is the one it stops at. -/
theorem count_whileFetch (hgood : ∀ b row, (step b row).Completes ↔ Good row) {m : ℕ} (b : β)
    (hm : stmt.GoesThrough Good m) : (stmt.whileFetch step b).count = m + 1 := by
  obtain ⟨hbefore, hle, hstop⟩ := hm
  have hend : ∀ b' : β, (do
      Counted.tick
      (failing (stmt.fetchFails.map .db) : Act Unit)
      return b' : StmtAct β).count = 1 := by
    intro b'
    rw [Counted.count_bind_done rfl, Counted.count_bind_unused (fun _ => rfl)]
    rfl
  rw [Stmt.whileFetch]
  generalize stmt.rows = rows at hbefore hle hstop
  induction rows generalizing b m with
  | nil =>
    obtain rfl := Nat.le_zero.mp hle
    rw [List.foldlM_nil, Counted.count_bind_done rfl, hend]
    rfl
  | cons row rows ih =>
    rw [List.foldlM_cons, bind_assoc]
    cases m with
    | zero =>
      have hnot : ¬ (Stmt.fetchRow step b row).act.Completes := by
        rw [act_fetchRow, hgood]
        exact hstop row rfl
      rw [Counted.count_bind_not hnot, count_fetchRow]
    | succ m =>
      rw [List.take_succ_cons, List.forall_mem_cons] at hbefore
      obtain ⟨b₁, hb₁⟩ := (hgood b row).mpr hbefore.1
      rw [Counted.count_bind_done ((congrArg ScopedEffects.Act.ending (act_fetchRow b row)).trans hb₁), count_fetchRow,
        ih b₁ hbefore.2 (Nat.le_of_succ_le_succ hle) hstop, Nat.add_comm]

theorem exists_goesThrough (stmt : Reply) (Good : Row → Prop) : ∃ m, stmt.GoesThrough Good m := by
  unfold Reply.GoesThrough
  induction stmt.rows with
  | nil => exact ⟨0, by simp⟩
  | cons row rows ih =>
    by_cases hrow : Good row
    · obtain ⟨m, hbefore, hle, hstop⟩ := ih
      refine ⟨m + 1, ?_, Nat.succ_le_succ hle, hstop⟩
      rw [List.take_succ_cons, List.forall_mem_cons]
      exact ⟨hrow, hbefore⟩
    · exact ⟨0, by simp [hrow]⟩

theorem act_rows (hbound : none ∉ stmt.query.bound) (b : β) :
    (do stmt.execute; stmt.whileFetch step b : StmtAct β).act = do
      failing (stmt.executeFails.map .db)
      let b ← stmt.rows.foldlM step b
      failing (stmt.fetchFails.map .db)
      return b := by
  rw [Counted.act_bind, Counted.act_lift, execute_eq hbound, act_whileFetch]

theorem silent_rows (h : ∀ b row, (step b row).Silent) (b : β) :
    (do stmt.execute; stmt.whileFetch step b : StmtAct β).act.Silent := by
  rw [Counted.act_bind]
  exact silent_bind silent_execute (fun _ => silent_whileFetch h b)

theorem released_iff (hbound : none ∉ stmt.query.bound) (hgood : ∀ b row, (step b row).Completes ↔ Good row) (b : β) :
    stmt.freesTwice (do stmt.execute; stmt.whileFetch step b : StmtAct β).count = false ↔ stmt.Released Good := by
  rw [Reply.Released]
  cases hexecute : stmt.executeFails with
  | some e =>
    have hnot : ¬ stmt.execute.Completes := by
      rw [execute_eq hbound, completes_failing, hexecute]
      exact Option.some_ne_none _
    rw [Counted.count_bind_not hnot, Counted.count_lift]
    exact iff_of_true (freesTwice_one _ (Nat.zero_le 1)) (fun h => absurd h (Option.some_ne_none e))
  | none =>
    have hdone : (liftM stmt.execute : StmtAct Unit).act.ending = .done () := by
      rw [Counted.act_lift, execute_eq hbound, hexecute]
      rfl
    rw [Counted.count_bind_done hdone, Counted.count_lift, Nat.zero_add]
    constructor
    · intro hfrees _ m hm
      rw [← count_whileFetch hgood b hm]
      exact hfrees
    · intro hreleased
      obtain ⟨m, hm⟩ := exists_goesThrough stmt.toReply Good
      rw [count_whileFetch hgood b hm]
      exact hreleased rfl m hm

theorem completes_rows (hbound : none ∉ stmt.query.bound) (hgood : ∀ b row, (step b row).Completes ↔ Good row) (b : β) :
    (do stmt.execute; stmt.whileFetch step b : StmtAct β).act.Completes ↔ stmt.AllRows Good := by
  have hend : ∀ b' : β, (do failing (stmt.fetchFails.map .db); return b' : Act β).Completes ↔
      stmt.fetchFails = none := by
    intro b'
    rw [completes_bind_of (fun _ => Iff.of_eq (eq_true (completes_pure b'))), completes_failing, and_true,
      Option.map_eq_none_iff]
  rw [act_rows hbound, completes_bind_of (fun _ => completes_bind_of hend), completes_foldlM hgood,
    completes_failing, Option.map_eq_none_iff, Reply.AllRows]

theorem throws_rows (hbound : none ∉ stmt.query.bound) (hgood : ∀ b row, (step b row).Completes ↔ Good row)
    (hbad : ∀ b row, (step b row).Throws ↔ Bad row) (b : β) :
    (do stmt.execute; stmt.whileFetch step b : StmtAct β).act.Throws ↔ stmt.RowsFail Good Bad := by
  have hend : ∀ b' : β, (do failing (stmt.fetchFails.map .db); return b' : Act β).Throws ↔
      stmt.fetchFails ≠ none := by
    intro b'
    rw [throws_bind_of (fun _ => Iff.of_eq (eq_false (not_throws_pure b'))), throws_failing, and_false, or_false,
      ne_eq, Option.map_eq_none_iff]
  rw [act_rows hbound, throws_bind_of (fun _ => throws_bind_of hend), completes_foldlM hgood,
    throws_foldlM hgood hbad, completes_failing, throws_failing, ne_eq, Option.map_eq_none_iff, Reply.RowsFail]
  tauto

theorem completes_whileFetch (hbound : none ∉ stmt.query.bound) (hgood : ∀ b row, (step b row).Completes ↔ Good row)
    (b : β) : (stmt.freeing (do stmt.execute; stmt.whileFetch step b : StmtAct β)).Completes ↔
      stmt.AllRows Good ∧ stmt.Released Good := by
  rw [Reply.freeing, completes_killed, released_iff hbound hgood, completes_rows hbound hgood, and_comm]

theorem throws_whileFetch (hbound : none ∉ stmt.query.bound) (hgood : ∀ b row, (step b row).Completes ↔ Good row)
    (hbad : ∀ b row, (step b row).Throws ↔ Bad row) (b : β) :
    (stmt.freeing (do stmt.execute; stmt.whileFetch step b : StmtAct β)).Throws ↔
      stmt.RowsFail Good Bad ∧ stmt.Released Good := by
  rw [Reply.freeing, throws_killed, released_iff hbound hgood, throws_rows hbound hgood hbad, and_comm]

theorem whileFetch_done {g : β → Row → β} (h : ∀ b row b', (step b row).ending = .done b' → b' = g b row) {b b' : β}
    (hdone : (do stmt.execute; stmt.whileFetch step b : StmtAct β).act.ending = .done b') :
    b' = stmt.rows.foldl g b := by
  rw [Counted.act_bind, act_whileFetch] at hdone
  obtain ⟨-, -, hfetch⟩ := bind_ending_done.mp hdone
  obtain ⟨b₁, hrows, hend⟩ := bind_ending_done.mp hfetch
  obtain ⟨-, -, hreturn⟩ := bind_ending_done.mp hend
  cases hreturn
  exact foldlM_done h hrows

variable {f : Option Row → StmtAct β}

theorem count_first (hcount : ∀ row, (f row).count = 0) :
    (do stmt.execute; let row ← stmt.fetch; f row : StmtAct β).count ≤ 1 := by
  have hfetch : (do let row ← stmt.fetch; f row : StmtAct β).count = 1 :=
    (Counted.count_bind_unused hcount).trans count_fetch
  by_cases hexecute : (liftM stmt.execute : StmtAct Unit).act.Completes
  · obtain ⟨a, ha⟩ := hexecute
    rw [Counted.count_bind_done ha, hfetch, Counted.count_lift]
  · rw [Counted.count_bind_not hexecute, Counted.count_lift]
    exact Nat.zero_le 1

theorem act_first (hbound : none ∉ stmt.query.bound) :
    (do stmt.execute; let row ← stmt.fetch; f row : StmtAct β).act =
      match stmt.rows with
      | [] => do
        failing (stmt.executeFails.map .db)
        failing (stmt.fetchFails.map .db)
        (f none).act
      | row :: _ => failing (stmt.executeFails.map .db) >>= fun _ => (f (some row)).act := by
  rw [Counted.act_bind, Counted.act_lift, execute_eq hbound]
  simp only [Counted.act_bind, act_fetch]
  cases stmt.rows with
  | nil => simp only [bind_assoc, pure_bind]
  | cons row rows => simp only [pure_bind]

theorem completes_first (hbound : none ∉ stmt.query.bound) (hnone : (f none).act.Completes)
    (hgood : ∀ row, (f (some row)).act.Completes ↔ Good row) :
    (do stmt.execute; let row ← stmt.fetch; f row : StmtAct β).act.Completes ↔ stmt.FirstRow Good := by
  rw [act_first hbound, Reply.FirstRow]
  cases stmt.rows with
  | nil =>
    dsimp only
    rw [completes_bind_of (fun _ => completes_bind_of (fun _ => Iff.of_eq (eq_true hnone))), completes_failing,
      completes_failing, Option.map_eq_none_iff, Option.map_eq_none_iff]
    simp
  | cons row rows =>
    dsimp only
    rw [completes_bind_of (fun _ => hgood row), completes_failing, Option.map_eq_none_iff]
    simp

theorem throws_first (hbound : none ∉ stmt.query.bound) (hnot : ¬ (f none).act.Throws)
    (hbad : ∀ row, (f (some row)).act.Throws ↔ Bad row) :
    (do stmt.execute; let row ← stmt.fetch; f row : StmtAct β).act.Throws ↔ stmt.FirstFails Bad := by
  rw [act_first hbound, Reply.FirstFails]
  cases stmt.rows with
  | nil =>
    dsimp only
    rw [throws_bind_of (fun _ => throws_bind_of (fun _ => Iff.of_eq (eq_false hnot))), completes_failing,
      throws_failing, throws_failing, ne_eq, ne_eq, Option.map_eq_none_iff, Option.map_eq_none_iff]
    simp
    tauto
  | cons row rows =>
    dsimp only
    rw [throws_bind_of (fun _ => hbad row), completes_failing, throws_failing, ne_eq, Option.map_eq_none_iff]
    simp
    tauto

end

end FcgiAppserver.Handlers
