import Mathlib.Data.Finset.Card
import Mathlib.Data.List.Induction
import PhpFrontEnd.Intern.Pool
import PhpFrontEnd.Lexer.Run

/-!
# Tables and their pool over time

What happens to the tables of a pool can be written down as it happens: which table is taken, which
is put into the pool, which copy of a text a table gives out, when a table is cleared (`PoolEvent`).
From such a log one can tell which tables wait in the pool (`waiting`), and which texts a table has
given out since it was last cleared (`sinceClear`).

A store is sound if it is as its log tells (`Sound`). The pool is small in both directions, no table
is in two places, and the one that is taken is the one that was put there last, with the same texts
in it; a table gives out the same copy just for the same text, and its size is the number of texts.

That holds after any number of requests (`sound_run`). A request may take a table while it gives
back another, so the steps are shown for a pool and for all the tables that are out, wherever they
are held (`Accounted`): to take, to share, to clear and to give back.
-/

namespace PhpFrontEnd

/-! ## What happens -/

/-- What happens to the tables of a pool. -/
inductive PoolEvent where
  | taken (table : TextTable)
  | pooled (table : TextTable)
  /-- a table gives out the copy of a text -/
  | shared (id : Nat) (text : String) (identity : Nat)
  | cleared (id : Nat)

/-- The tables that wait after an event, the one that was pooled last first. -/
def PoolEvent.waiting (tables : List TextTable) : PoolEvent → List TextTable
  | .pooled table => table :: tables
  | .taken _ => tables.tail
  | .shared .. | .cleared _ => tables

/-- What a table has given out since it was last cleared, after an event. -/
def PoolEvent.given (id : Nat) (texts : List (String × Nat)) : PoolEvent → List (String × Nat)
  | .shared own text identity => if own = id then texts ++ [(text, identity)] else texts
  | .cleared own => if own = id then [] else texts
  | .taken _ | .pooled _ => texts

/-- The tables that wait, as a log tells. -/
def waiting (log : List PoolEvent) : List TextTable := log.foldl PoolEvent.waiting []

/-- The texts that a table has given out since it was last cleared, with their identities. -/
def sinceClear (id : Nat) (log : List PoolEvent) : List (String × Nat) :=
  log.foldl (PoolEvent.given id) []

/-- What a pool and the tables from it are asked for. Tables that are out have numbers. -/
inductive StoreRequest where
  | acquire (slot : Nat)
  | release (slot : Nat)
  | share (slot : Nat) (text : String)
  | shareChars (slot : Nat) (chars : List Char)
  | clear (slot : Nat)
  /-- a whole session, which takes a table for itself -/
  | session (lexer : Lexer)

/-- What happens when a table is given back. -/
def TablePool.giveBackEvents (pool : TablePool) (table : TextTable) : List PoolEvent :=
  (if maxTexts < table.size then [.cleared table.id] else []) ++
    if pool.available < maxTables then [.pooled (kept table)] else []

/-- What happens when a table is asked for texts, one after the other. -/
def TextTable.shareAllEvents : TextTable → Nat → List String → List PoolEvent
  | _, _, [] => []
  | table, next, text :: texts =>
    let shared := table.shareChars text.toList next
    .shared table.id text shared.identity :: shared.table.shareAllEvents shared.next texts

namespace TextStore

def releaseEvents (store : TextStore) (slot : Nat) : List PoolEvent :=
  match store.held? slot with
  | some table => store.pool.giveBackEvents table
  | none => []

def clearEvents (store : TextStore) (slot : Nat) : List PoolEvent :=
  match store.held? slot with
  | some table => [.cleared table.id]
  | none => []

/-- What happens when the table held under a number is asked for a text. -/
def askEvents (store : TextStore) (slot : Nat) (text : String) (answer : Option Nat) :
    List PoolEvent :=
  match store.held? slot, answer with
  | some table, some identity => [.shared table.id text identity]
  | _, _ => []

/-- Does what is asked for, and tells what happens. -/
def perform (store : TextStore) : StoreRequest → TextStore × List PoolEvent
  | .acquire slot =>
    let (table, rest) := store.take
    (store.acquire slot, .taken table :: rest.releaseEvents slot)
  | .release slot => (store.release slot, store.releaseEvents slot)
  | .share slot text =>
    let (answer, after) := store.share slot text
    (after, store.askEvents slot text answer)
  | .shareChars slot chars =>
    let (answer, after) := store.shareChars slot chars
    (after, store.askEvents slot (.ofList chars) answer)
  | .clear slot => (store.clear slot, store.clearEvents slot)
  | .session lexer =>
    let texts := lexer.scan.shared
    let (table, rest) := store.take
    (store.session texts, .taken table :: (table.shareAllEvents rest.nextText texts ++
      rest.pool.giveBackEvents (shareAll table rest.nextText texts).1))

/-- One request after the other, with the log. -/
def run : List StoreRequest → TextStore × List PoolEvent → TextStore × List PoolEvent
  | [], state => state
  | request :: requests, (store, log) =>
    let (store, events) := store.perform request
    run requests (store, log ++ events)

/-- All tables: those that wait, and those that are out. -/
def tables (store : TextStore) : List TextTable := store.pool.tables ++ store.held.map (·.2)

/-- A store with all that happened to its tables. -/
structure Sound (store : TextStore) (log : List PoolEvent) : Prop where
  /-- few tables wait -/
  available : store.pool.available ≤ 16
  /-- and they have few texts -/
  size : ∀ table ∈ store.pool.tables, table.size ≤ 16384
  /-- no table waits while it is out, or is out twice -/
  once : (store.tables.map (·.id)).Nodup
  /-- those wait that were pooled and not taken since -/
  pooled : store.pool.tables = waiting log
  /-- the table that was pooled last is taken, as it was then, or an empty one if none waits -/
  acquired : ∀ slot, ∃ table, (store.acquire slot).held? slot = some table ∧
    match waiting log with
    | pooled :: _ => table = pooled
    | [] => table.size = 0
  /-- a table that is out gives out a copy of any text, and the same if it has characters -/
  answered : ∀ slot text, (store.held? slot).isSome → ∃ identity,
    (store.share slot text).1 = some identity ∧
      (store.shareChars slot text.toList).1 = some identity
  /-- as long as it is not cleared, a table gives out one copy for each text -/
  shared : ∀ before between after id x i y j,
    log = before ++ .shared id x i :: (between ++ .shared id y j :: after) →
      .cleared id ∉ between → (i = j ↔ x = y)
  /-- the texts that were asked for are counted once -/
  counted : ∀ table ∈ store.tables,
    table.size = ((sinceClear table.id log).map (·.1)).toFinset.card

end TextStore

/-! ## Logs -/

section

variable {log : List PoolEvent} {id : Nat}

/-- The last event changes which tables wait. -/
theorem waiting_concat (log : List PoolEvent) (event : PoolEvent) :
    waiting (log ++ [event]) = event.waiting (waiting log) :=
  List.foldl_append

/-- The last event changes what a table has given out. -/
theorem sinceClear_concat (id : Nat) (log : List PoolEvent) (event : PoolEvent) :
    sinceClear id (log ++ [event]) = event.given id (sinceClear id log) :=
  List.foldl_append

/-- What a table gives out is there until it is cleared. -/
theorem mem_sinceClear_append {between : List PoolEvent} {entry : String × Nat}
    (h : entry ∈ sinceClear id log) (notCleared : .cleared id ∉ between) :
    entry ∈ sinceClear id (log ++ between) := by
  induction between using List.reverseRecOn with
  | nil => rwa [List.append_nil]
  | append_singleton between event ih =>
    rw [List.mem_append, not_or, List.mem_singleton] at notCleared
    have before := ih notCleared.1
    rw [← List.append_assoc, sinceClear_concat]
    cases event with
    | taken | pooled => exact before
    | shared own text identity =>
      rw [PoolEvent.given]
      split
      · exact List.mem_append_left _ before
      · exact before
    | cleared own =>
      have other : own ≠ id := fun same => notCleared.2 (by rw [same])
      rwa [PoolEvent.given, if_neg other]

/-- Whenever a table gives out a copy, it has given out the same one since it was last cleared just
for the same text. -/
def Steady (log : List PoolEvent) : Prop :=
  ∀ before id text identity, before ++ [.shared id text identity] <+: log →
    ∀ entry ∈ sinceClear id before, entry.2 = identity ↔ entry.1 = text

/-- A log stays steady if what is given out now fits what was given out before. -/
theorem Steady.concat (h : Steady log) {event : PoolEvent}
    (fits : ∀ id text identity, event = .shared id text identity →
      ∀ entry ∈ sinceClear id log, entry.2 = identity ↔ entry.1 = text) :
    Steady (log ++ [event]) := by
  intro before id text identity front
  rcases List.prefix_concat_iff.1 front with whole | front
  · obtain ⟨rfl, last⟩ := List.append_inj' whole rfl
    exact fits id text identity (List.singleton_inj.1 last).symm
  · exact h before id text identity front

/-- In a steady log a table gives out equal copies for equal texts, as long as it is not cleared in
between. -/
theorem Steady.eq_iff (h : Steady log) {before between after : List PoolEvent} {x y : String}
    {i j : Nat} (split : log = before ++ .shared id x i :: (between ++ .shared id y j :: after))
    (notCleared : .cleared id ∉ between) : i = j ↔ x = y := by
  have given : (x, i) ∈ sinceClear id (before ++ [.shared id x i]) := by
    rw [sinceClear_concat, PoolEvent.given, if_pos rfl]
    exact List.mem_append_right _ List.mem_cons_self
  have front : before ++ [.shared id x i] ++ between ++ [.shared id y j] <+: log :=
    ⟨after, by simp [split]⟩
  exact h _ id y j front _ (mem_sinceClear_append given notCleared)

end

/-! ## Accounts of tables -/

/-- A table is as the log tells: it has the texts that it has given out since it was last cleared,
each with an identity of its own. -/
structure TextTable.Accounted (table : TextTable) (nextTable nextText : Nat)
    (log : List PoolEvent) : Prop where
  made : table.id < nextTable
  entries : ∀ (text : String) (identity : Nat), table.entries[text]? = some identity ↔
    (text, identity) ∈ sinceClear table.id log
  less : ∀ (text : String) (identity : Nat),
    table.entries[text]? = some identity → identity < nextText
  injective : ∀ (text other : String) (identity : Nat), table.entries[text]? = some identity →
    table.entries[other]? = some identity → text = other

/-- A pool and the tables that are out, wherever they are held, are as the log tells. -/
structure Accounted (pool : TablePool) (out : List TextTable) (nextTable nextText : Nat)
    (log : List PoolEvent) : Prop where
  available : pool.available ≤ TablePool.maxTables
  size : ∀ table ∈ pool.tables, table.size ≤ TablePool.maxTexts
  once : ((pool.tables ++ out).map (·.id)).Nodup
  waiting : pool.tables = waiting log
  tables : ∀ table ∈ pool.tables ++ out, table.Accounted nextTable nextText log
  /-- a table that is not made yet has given out nothing -/
  unused : ∀ id, nextTable ≤ id → sinceClear id log = []
  steady : Steady log

namespace TextTable

variable {table : TextTable} {text : String} {identity : Nat}

/-- A text that is known is given out again. -/
theorem share_of_some (h : table.entries[text]? = some identity) (next : Nat) :
    table.share text next = ⟨identity, table, next⟩ := by
  rw [TextTable.share, h]

/-- A text that is not known gets a new identity. -/
theorem share_of_none (h : table.entries[text]? = none) (next : Nat) : table.share text next =
    ⟨next, { table with entries := table.entries.insert text next }, next + 1⟩ := by
  rw [TextTable.share, h]

theorem id_share (table : TextTable) (text : String) (next : Nat) :
    (table.share text next).table.id = table.id := by
  unfold TextTable.share
  split <;> rfl

/-- The buffer plays no part in what is given out. -/
theorem identity_share_withBuffer (table : TextTable) (buffer text : String) (next : Nat) :
    ({ table with buffer }.share text next).identity = (table.share text next).identity := by
  unfold TextTable.share
  dsimp only
  split <;> rfl

theorem le_next_share (table : TextTable) (text : String) (next : Nat) :
    next ≤ (table.share text next).next := by
  unfold TextTable.share
  split
  · exact Nat.le_refl _
  · exact Nat.le_succ _

end TextTable

namespace TextTable.Accounted

variable {table : TextTable} {nextTable nextText : Nat} {log : List PoolEvent}

/-- Nothing happens to a table unless the log tells. -/
theorem concat (h : table.Accounted nextTable nextText log) {event : PoolEvent}
    {laterTable laterText : Nat}
    (other : event.given table.id (sinceClear table.id log) = sinceClear table.id log)
    (leTable : nextTable ≤ laterTable) (leText : nextText ≤ laterText) :
    table.Accounted laterTable laterText (log ++ [event]) where
  made := Nat.lt_of_lt_of_le h.made leTable
  entries text identity := by rw [sinceClear_concat, other, h.entries]
  less text identity there := Nat.lt_of_lt_of_le (h.less text identity there) leText
  injective := h.injective

/-- A cleared table has given out nothing, as the log says. -/
theorem clear (h : table.Accounted nextTable nextText log) :
    table.clear.Accounted nextTable nextText (log ++ [.cleared table.id]) where
  made := h.made
  entries text identity := by
    have nothing : table.clear.entries[text]? = none := Std.HashMap.getElem?_empty
    rw [sinceClear_concat, nothing]
    simp [PoolEvent.given, TextTable.clear]
  less text identity there := by simp [TextTable.clear] at there
  injective text other identity there := by simp [TextTable.clear] at there

/-- The buffer is no part of what is told. -/
theorem withBuffer (h : table.Accounted nextTable nextText log) (buffer : String) :
    { table with buffer }.Accounted nextTable nextText log :=
  ⟨h.made, h.entries, h.less, h.injective⟩

/-- A shared text is one more entry in the log, old or new. -/
theorem share (h : table.Accounted nextTable nextText log) (text : String) :
    (table.share text nextText).table.Accounted nextTable (table.share text nextText).next
      (log ++ [.shared table.id text (table.share text nextText).identity]) := by
  have given (identity : Nat) : sinceClear table.id (log ++ [.shared table.id text identity]) =
      sinceClear table.id log ++ [(text, identity)] := by
    rw [sinceClear_concat, PoolEvent.given, if_pos rfl]
  rcases known : table.entries[text]? with _ | identity
  · -- the copy is made, with an identity that no other has
    rw [share_of_none known]
    have entries (other : String) (identity : Nat) :
        (table.entries.insert text nextText)[other]? = some identity ↔
          table.entries[other]? = some identity ∨ (other, identity) = (text, nextText) := by
      rw [Std.HashMap.getElem?_insert, Prod.mk.injEq]
      by_cases same : text = other
      · subst same
        simp [known, eq_comm]
      · simp [same, Ne.symm same]
    refine ⟨h.made, fun other identity => ?_, fun other identity there => ?_,
      fun one other identity there there' => ?_⟩
    · rw [given, entries, List.mem_append, List.mem_singleton, ← h.entries]
    · rcases (entries other identity).1 there with there | new
      · exact Nat.lt_succ_of_lt (h.less other identity there)
      · exact (Prod.mk.inj new).2 ▸ Nat.lt_succ_self _
    · have notNew {text : String} (old : table.entries[text]? = some nextText) : False :=
        Nat.lt_irrefl _ (h.less text nextText old)
      rcases (entries one identity).1 there with old | new <;>
        rcases (entries other identity).1 there' with old' | new'
      · exact h.injective one other identity old old'
      · obtain ⟨-, rfl⟩ := Prod.mk.inj new'
        exact (notNew old).elim
      · obtain ⟨-, rfl⟩ := Prod.mk.inj new
        exact (notNew old').elim
      · exact (Prod.mk.inj new).1.trans (Prod.mk.inj new').1.symm
  · rw [share_of_some known]
    refine ⟨h.made, fun other its => ?_, h.less, h.injective⟩
    rw [given, List.mem_append, List.mem_singleton, ← h.entries]
    refine ⟨.inl, ?_⟩
    rintro (there | same)
    · exact there
    · obtain ⟨rfl, rfl⟩ := Prod.mk.inj same
      exact known

/-- The copy of a text is one that was given out before just if it was for the same text. -/
theorem identity_iff (h : table.Accounted nextTable nextText log) (text : String) :
    ∀ entry ∈ sinceClear table.id log,
      entry.2 = (table.share text nextText).identity ↔ entry.1 = text := by
  rintro ⟨other, identity⟩ mem
  have there := (h.entries other identity).2 mem
  dsimp only
  rcases known : table.entries[text]? with _ | own
  · rw [share_of_none known]
    have old := h.less other identity there
    have ne : other ≠ text := by
      rintro rfl
      rw [known] at there
      cases there
    exact iff_of_false (Nat.ne_of_lt old) ne
  · rw [share_of_some known]
    constructor
    · rintro rfl
      exact h.injective other text identity there known
    · rintro rfl
      rw [known] at there
      exact (Option.some.inj there).symm

/-- A table has as many texts as it has given out since it was last cleared. -/
theorem size_eq (h : table.Accounted nextTable nextText log) :
    table.size = ((sinceClear table.id log).map (·.1)).toFinset.card := by
  have texts : ((sinceClear table.id log).map (·.1)).toFinset = table.entries.keys.toFinset := by
    ext text
    rw [List.mem_toFinset, List.mem_toFinset, List.mem_map, Std.HashMap.mem_keys,
      Std.HashMap.mem_iff_isSome_getElem?, Option.isSome_iff_exists]
    constructor
    · rintro ⟨⟨text, identity⟩, mem, rfl⟩
      exact ⟨identity, (h.entries text identity).2 mem⟩
    · rintro ⟨identity, there⟩
      exact ⟨(text, identity), (h.entries text identity).1 there, rfl⟩
  rw [texts, List.toFinset_card_of_nodup table.entries.nodup_keys, Std.HashMap.length_keys]
  rfl

end TextTable.Accounted

namespace Accounted

variable {pool : TablePool} {table : TextTable} {out : List TextTable} {nextTable nextText : Nat}
  {log : List PoolEvent}

/-- Where tables are held does not matter. -/
theorem perm {others : List TextTable} (h : Accounted pool out nextTable nextText log)
    (same : out.Perm others) : Accounted pool others nextTable nextText log where
  available := h.available
  size := h.size
  once := (((same.append_left pool.tables).map _).nodup_iff).1 h.once
  waiting := h.waiting
  tables table mem := h.tables table ((same.append_left pool.tables).mem_iff.2 mem)
  unused := h.unused
  steady := h.steady

/-- A table that is out has its number for itself. -/
theorem id_ne (h : Accounted pool (table :: out) nextTable nextText log) {other : TextTable}
    (mem : other ∈ pool.tables ++ out) : other.id ≠ table.id := by
  have once := ((List.perm_middle.map _).nodup_iff).1 h.once
  rw [List.map_cons, List.nodup_cons] at once
  exact fun same => once.1 (same ▸ List.mem_map_of_mem mem)

/-- Something happens to a table that is out. -/
theorem update (h : Accounted pool (table :: out) nextTable nextText log) {event : PoolEvent}
    {after : TextTable} {later : Nat} (id : after.id = table.id)
    (own : after.Accounted nextTable later (log ++ [event])) (le : nextText ≤ later)
    (notPooled : ∀ tables, event.waiting tables = tables)
    (notOther : ∀ id texts, id ≠ table.id → event.given id texts = texts)
    (fits : ∀ id text identity, event = .shared id text identity →
      ∀ entry ∈ sinceClear id log, entry.2 = identity ↔ entry.1 = text) :
    Accounted pool (after :: out) nextTable later (log ++ [event]) where
  available := h.available
  size := h.size
  once := by simpa [id] using h.once
  waiting := by rw [waiting_concat, notPooled, h.waiting]
  tables other mem := by
    -- the others have numbers of their own, so the event is not about them
    rcases List.mem_cons.1 (List.perm_middle.mem_iff.1 mem) with rfl | mem
    · exact own
    · have before := h.tables other (List.perm_middle.mem_iff.2 (List.mem_cons_of_mem _ mem))
      exact before.concat (notOther _ _ (h.id_ne mem)) (Nat.le_refl _) le
  unused other le := by
    have made := (h.tables table (by simp)).made
    rw [sinceClear_concat, h.unused other le]
    exact notOther _ _ (by omega)
  steady := h.steady.concat fits

/-- To clear a table that is out concerns no other table. -/
theorem clear (h : Accounted pool (table :: out) nextTable nextText log) :
    Accounted pool (table.clear :: out) nextTable nextText (log ++ [.cleared table.id]) :=
  h.update rfl (h.tables table (by simp)).clear (Nat.le_refl _) (fun _ => rfl)
    (fun _ _ ne => if_neg ne.symm) nofun

/-- To share a text may use up an identity, which no other table has given out. -/
theorem share (h : Accounted pool (table :: out) nextTable nextText log) (text : String) :
    Accounted pool ((table.share text nextText).table :: out) nextTable
      (table.share text nextText).next
      (log ++ [.shared table.id text (table.share text nextText).identity]) := by
  have own := h.tables table (by simp)
  refine h.update (table.id_share text nextText) (own.share text)
    (table.le_next_share text nextText) (fun _ => rfl) (fun _ _ ne => if_neg ne.symm) ?_
  rintro id text identity ⟨⟩
  exact own.identity_iff text

theorem withBuffer (h : Accounted pool (table :: out) nextTable nextText log) (buffer : String) :
    Accounted pool ({ table with buffer } :: out) nextTable nextText log where
  available := h.available
  size := h.size
  once := by simpa using h.once
  waiting := h.waiting
  tables other mem := by
    rcases List.mem_cons.1 (List.perm_middle.mem_iff.1 mem) with rfl | mem
    · exact (h.tables table (by simp)).withBuffer buffer
    · exact h.tables other (List.perm_middle.mem_iff.2 (List.mem_cons_of_mem _ mem))
  unused := h.unused
  steady := h.steady

/-- Characters are shared as their text is, by way of the buffer. -/
theorem shareChars (h : Accounted pool (table :: out) nextTable nextText log) (chars : List Char) :
    Accounted pool ((table.shareChars chars nextText).table :: out) nextTable
      (table.shareChars chars nextText).next
      (log ++ [.shared table.id (.ofList chars) (table.shareChars chars nextText).identity]) :=
  ((h.withBuffer "").share (.ofList chars)).withBuffer (.ofList chars)

/-- Texts are shared one after the other. -/
theorem shareAll (texts : List String)
    (h : Accounted pool (table :: out) nextTable nextText log) :
    Accounted pool ((TextStore.shareAll table nextText texts).1 :: out) nextTable
      (TextStore.shareAll table nextText texts).2
      (log ++ table.shareAllEvents nextText texts) := by
  induction texts generalizing table nextText log with
  | nil => rwa [TextTable.shareAllEvents, List.append_nil]
  | cons text texts ih =>
    have first := h.shareChars text.toList
    rw [String.ofList_toList] at first
    have others := ih first
    rwa [List.append_assoc] at others

/-- A table that is out goes to the pool. -/
theorem toPool (h : Accounted pool (table :: out) nextTable nextText log)
    (room : pool.available < TablePool.maxTables) (few : table.size ≤ TablePool.maxTexts) :
    Accounted ⟨table :: pool.tables⟩ out nextTable nextText (log ++ [.pooled table]) where
  available := room
  size other mem := by
    rcases List.mem_cons.1 mem with rfl | mem
    · exact few
    · exact h.size other mem
  once := ((List.perm_middle.map _).nodup_iff).1 h.once
  waiting := by rw [waiting_concat, PoolEvent.waiting, h.waiting]
  tables other mem :=
    (h.tables other (List.perm_middle.mem_iff.2 mem)).concat rfl (Nat.le_refl _) (Nat.le_refl _)
  unused id le := (sinceClear_concat ..).trans (h.unused id le)
  steady := h.steady.concat nofun

/-- A table that is out is dropped. -/
theorem dropped (h : Accounted pool (table :: out) nextTable nextText log) :
    Accounted pool out nextTable nextText log where
  available := h.available
  size := h.size
  once := (List.nodup_cons.1 (((List.perm_middle.map _).nodup_iff).1 h.once)).2
  waiting := h.waiting
  tables other mem := h.tables other (List.perm_middle.mem_iff.2 (List.mem_cons_of_mem _ mem))
  unused := h.unused
  steady := h.steady

/-- A table is given back: cleared if it is too large, and kept if there is room. -/
theorem giveBack (h : Accounted pool (table :: out) nextTable nextText log) :
    Accounted (pool.giveBack table) out nextTable nextText
      (log ++ pool.giveBackEvents table) := by
  -- it is cleared while it is still out, so what goes to the pool has few texts
  have kept : Accounted pool (TablePool.kept table :: out) nextTable nextText
      (log ++ if TablePool.maxTexts < table.size then [.cleared table.id] else []) := by
    unfold TablePool.kept
    split
    · exact h.clear
    · rwa [List.append_nil]
  have few : (TablePool.kept table).size ≤ TablePool.maxTexts := by
    unfold TablePool.kept
    split
    · exact Nat.zero_le _
    · rename_i few
      exact Nat.le_of_not_lt few
  rw [TablePool.giveBackEvents, ← List.append_assoc, TablePool.giveBack]
  split
  · rename_i room
    exact kept.toPool room few
  · rw [List.append_nil]
    exact kept.dropped

/-- A table is taken: the first that waits, or one that is made. -/
theorem take {store : TextStore}
    (h : Accounted store.pool out store.nextTable store.nextText log) :
    Accounted store.take.2.pool (store.take.1 :: out) store.take.2.nextTable
      store.take.2.nextText (log ++ [.taken store.take.1]) := by
  obtain ⟨⟨tables⟩, held, nextTable, nextText⟩ := store
  rcases tables with _ | ⟨table, rest⟩
  · -- none waits, and one is made with a number that none has had before
    have made : TextTable.Accounted { id := nextTable } (nextTable + 1) nextText
        (log ++ [.taken { id := nextTable }]) := by
      refine ⟨Nat.lt_succ_self _, fun text identity => ?_, fun text identity there => ?_,
        fun text other identity there => ?_⟩
      · rw [sinceClear_concat]
        simp [PoolEvent.given, h.unused nextTable (Nat.le_refl _)]
      · simp at there
      · simp at there
    exact
      { available := h.available
        size := h.size
        once := by
          refine List.nodup_cons.2 ⟨fun mem => ?_, h.once⟩
          obtain ⟨other, mem, same⟩ := List.mem_map.1 mem
          exact Nat.ne_of_lt (h.tables other mem).made same
        waiting := by
          rw [waiting_concat, ← h.waiting]
          rfl
        tables other mem := by
          rcases List.mem_cons.1 mem with rfl | mem
          · exact made
          · exact (h.tables other mem).concat rfl (Nat.le_succ _) (Nat.le_refl _)
        unused id le := (sinceClear_concat ..).trans (h.unused id (Nat.le_of_succ_le le))
        steady := h.steady.concat nofun }
  · exact
      { available := Nat.le_of_succ_le h.available
        size other mem := h.size other (List.mem_cons_of_mem _ mem)
        once := ((List.perm_middle.map _).nodup_iff).2 h.once
        waiting := by
          rw [waiting_concat, ← h.waiting]
          rfl
        tables other mem :=
          (h.tables other (List.perm_middle.mem_iff.1 mem)).concat rfl (Nat.le_refl _)
            (Nat.le_refl _)
        unused id le := (sinceClear_concat ..).trans (h.unused id le)
        steady := h.steady.concat nofun }

end Accounted

/-! ## Requests -/

namespace TextStore

variable {store : TextStore} {slot : Nat} {table : TextTable} {log : List PoolEvent}

/-- Without the table held under a number. -/
def others (store : TextStore) (slot : Nat) : List (Nat × TextTable) :=
  store.held.filter (·.1 ≠ slot)

/-- Each number holds one table, and the tables are as the log tells. -/
structure Invariant (store : TextStore) (log : List PoolEvent) : Prop where
  slots : (store.held.map (·.1)).Nodup
  accounted : Accounted store.pool (store.held.map (·.2)) store.nextTable store.nextText log

theorem others_eq_of_held?_eq_none (h : store.held? slot = none) :
    store.others slot = store.held := by
  refine List.filter_eq_self.2 fun entry mem => decide_eq_true ?_
  exact bne_iff_ne.1 (bne_comm.trans (List.lookup_eq_none_iff.1 h entry mem))

/-- The table held under a number stands apart from all others. -/
theorem perm_of_held?_eq_some (slots : (store.held.map (·.1)).Nodup)
    (h : store.held? slot = some table) :
    (store.held.map (·.2)).Perm (table :: (store.others slot).map (·.2)) := by
  obtain ⟨front, back, eq, -⟩ := List.lookup_eq_some_iff.1 h
  rw [eq, List.map_append, List.map_cons, List.perm_middle.nodup_iff, List.nodup_cons,
    ← List.map_append] at slots
  have rest : store.others slot = front ++ back := by
    rw [others, eq, List.filter_append, List.filter_cons_of_neg (by simp), ← List.filter_append]
    refine List.filter_eq_self.2 fun entry mem => decide_eq_true fun same => ?_
    exact slots.1 (List.mem_map.2 ⟨entry, mem, same⟩)
  rw [rest, eq]
  exact List.perm_middle.map _

/-- What was let go is not there to be let go again. -/
theorem others_others (store : TextStore) (pool : TablePool) (slot : Nat) :
    { store with pool, held := store.others slot }.others slot = store.others slot := by
  simp [others, List.filter_filter]

theorem held_take (store : TextStore) : store.take.2.held = store.held := by
  unfold take
  split <;> rfl

/-- To release changes the pool and lets go of one number. -/
theorem release_eq (store : TextStore) (slot : Nat) : store.release slot =
    { store with pool := (store.release slot).pool, held := store.others slot } := by
  rcases held : store.held? slot with _ | table
  · simp only [release, held, others_eq_of_held?_eq_none held]
  · simp only [release, held, others]

theorem slots_others (slots : (store.held.map (·.1)).Nodup) (slot : Nat) :
    ((store.others slot).map (·.1)).Nodup :=
  slots.sublist (List.filter_sublist.map _)

/-- A table is held in place of another. -/
theorem Invariant.hold (slots : (store.held.map (·.1)).Nodup)
    (h : Accounted store.pool (table :: (store.others slot).map (·.2)) store.nextTable
      store.nextText log) : Invariant (store.hold slot table) log := by
  refine ⟨List.nodup_cons.2 ⟨fun mem => ?_, slots_others slots slot⟩, h⟩
  obtain ⟨entry, mem, same⟩ := List.mem_map.1 mem
  exact of_decide_eq_true (List.mem_filter.1 mem).2 same

/-- What is held under a number is given back, while another table is out. -/
theorem accounted_release {out : List TextTable} {nextTable nextText : Nat}
    (slots : (store.held.map (·.1)).Nodup) (slot : Nat)
    (h : Accounted store.pool (store.held.map (·.2) ++ out) nextTable nextText log) :
    Accounted (store.release slot).pool ((store.others slot).map (·.2) ++ out) nextTable nextText
      (log ++ store.releaseEvents slot) := by
  rcases held : store.held? slot with _ | table
  · simp only [release, releaseEvents, held, List.append_nil]
    rwa [others_eq_of_held?_eq_none held]
  · simp only [release, releaseEvents, held]
    exact (h.perm ((perm_of_held?_eq_some slots held).append_right out)).giveBack

/-- The table that is taken is out before the one is given back that was held in its place. -/
theorem Invariant.acquire (h : Invariant store log) (slot : Nat) :
    Invariant (store.acquire slot)
      (log ++ .taken store.take.1 :: store.take.2.releaseEvents slot) := by
  show Invariant ((store.take.2.release slot).hold slot store.take.1) _
  have taken := h.accounted.take
  -- the table that is taken is in hand, while what was held goes to the pool
  rw [← held_take] at taken
  have slots := h.slots
  rw [← held_take] at slots
  have released := accounted_release slots slot
    (taken.perm (List.perm_append_singleton _ _).symm)
  rw [List.append_assoc] at released
  rw [release_eq]
  refine .hold (slots_others slots slot) ?_
  rw [others_others]
  exact released.perm (List.perm_append_singleton _ _)

/-- The table held under a number is given back, if there is one. -/
theorem Invariant.release (h : Invariant store log) (slot : Nat) :
    Invariant (store.release slot) (log ++ store.releaseEvents slot) := by
  have accounted := h.accounted
  rw [← List.append_nil (store.held.map (·.2))] at accounted
  have released := accounted_release h.slots slot accounted
  rw [List.append_nil] at released
  rw [release_eq]
  exact ⟨slots_others h.slots slot, released⟩

/-- A table is cleared in its place. -/
theorem Invariant.clear (h : Invariant store log) (slot : Nat) :
    Invariant (store.clear slot) (log ++ store.clearEvents slot) := by
  rcases held : store.held? slot with _ | table
  · simpa only [TextStore.clear, clearEvents, held, List.append_nil] using h
  · simp only [TextStore.clear, clearEvents, held]
    exact .hold h.slots (h.accounted.perm (perm_of_held?_eq_some h.slots held)).clear

/-- The table held under a number gives out the copy of a text. -/
theorem Invariant.ask (h : Invariant store log) (slot : Nat) {text : String}
    {question : TextTable → Nat → Shared}
    (gives : ∀ {table out}, Accounted store.pool (table :: out) store.nextTable store.nextText log →
      Accounted store.pool ((question table store.nextText).table :: out) store.nextTable
        (question table store.nextText).next
        (log ++ [.shared table.id text (question table store.nextText).identity])) :
    Invariant (store.ask slot question).2
      (log ++ store.askEvents slot text (store.ask slot question).1) := by
  rcases held : store.held? slot with _ | table
  · simpa only [TextStore.ask, askEvents, held, List.append_nil] using h
  · simp only [TextStore.ask, askEvents, held]
    -- the copy is counted before the table is held again
    let later : TextStore := { store with nextText := (question table store.nextText).next }
    have given := gives (h.accounted.perm (perm_of_held?_eq_some h.slots held))
    have kept : Invariant (later.hold slot _) _ := .hold h.slots given
    exact kept

/-- A session takes a table, shares its texts and gives the table back. -/
theorem Invariant.session (h : Invariant store log) (texts : List String) :
    Invariant (store.session texts)
      (log ++ .taken store.take.1 :: (store.take.1.shareAllEvents store.take.2.nextText texts ++
        store.take.2.pool.giveBackEvents
          (shareAll store.take.1 store.take.2.nextText texts).1)) := by
  have done := (h.accounted.take.shareAll texts).giveBack
  rw [← held_take, List.append_assoc, List.append_assoc] at done
  have slots := h.slots
  rw [← held_take] at slots
  exact ⟨slots, done⟩

/-- **One request** keeps a store as its log tells. -/
theorem Invariant.perform (h : Invariant store log) (request : StoreRequest) :
    Invariant (store.perform request).1 (log ++ (store.perform request).2) := by
  cases request with
  | acquire slot => exact h.acquire slot
  | release slot => exact h.release slot
  | share slot text => exact h.ask slot fun accounted => accounted.share text
  | shareChars slot chars => exact h.ask slot fun accounted => accounted.shareChars chars
  | clear slot => exact h.clear slot
  | session lexer => exact h.session lexer.scan.shared

/-- The invariant holds after any number of requests. -/
theorem Invariant.run (requests : List StoreRequest) (h : Invariant store log) :
    Invariant (run requests (store, log)).1 (run requests (store, log)).2 := by
  induction requests generalizing store log with
  | nil => exact h
  | cons request requests ih => exact ih (h.perform request)

theorem invariant_empty : Invariant {} [] := by
  refine ⟨List.nodup_nil, ?_⟩
  exact
    { available := Nat.zero_le _
      size := nofun
      once := List.nodup_nil
      waiting := rfl
      tables := nofun
      unused _ _ := rfl
      steady before id text identity front := by simp at front }

/-- A store with the invariant is as its log tells. -/
theorem Invariant.sound (h : Invariant store log) : Sound store log where
  available := h.accounted.available
  size := h.accounted.size
  once := h.accounted.once
  pooled := h.accounted.waiting
  acquired slot := by
    refine ⟨store.take.1, List.lookup_cons_self, ?_⟩
    rw [← h.accounted.waiting]
    rcases waits : store.pool.tables with _ | ⟨table, rest⟩
    · simp only [take, waits]
      rfl
    · simp only [take, waits]
  answered slot text there := by
    obtain ⟨table, held⟩ := Option.isSome_iff_exists.1 there
    refine ⟨(table.share text store.nextText).identity, ?_, ?_⟩
    · rw [TextStore.share, TextStore.ask, held]
    · rw [shareChars, TextStore.ask, held, ← table.identity_share_withBuffer ""]
      simp only [TextTable.shareChars, String.ofList_toList]
  shared before between after id x i y j split := h.accounted.steady.eq_iff split
  counted table mem := (h.accounted.tables table mem).size_eq

/-- After any requests to an empty store it is as its log tells. -/
theorem sound_run (requests : List StoreRequest) :
    Sound (TextStore.run requests ({}, [])).1 (TextStore.run requests ({}, [])).2 :=
  (invariant_empty.run requests).sound

end TextStore

end PhpFrontEnd
