import Mathlib.Data.List.Nodup
import Mathlib.Logic.Function.Basic
import PhpFrontEnd.Properties

/-!
# Bags are ordered maps

An ordered map is an order of keys, and a value for each of them (`OrderedMap`). Storing under a key
that it has leaves the order alone, and a new key comes last; removing takes the key out of the
order and leaves the others where they are. What is stored under one key has nothing to do with what
is stored under another, and a type is just one more key.

A bag is asked for all kinds of things, some by key and some by type, in any order. Asked for the
same things one after the other, a bag and an ordered map give the same answers, and in the end they
hold the same keys in the same order with the same values (`Bag.answers_as_map`). That is shown for
one request (`Represents.ask`) and then for any number of them.
-/

namespace PhpFrontEnd

/-! ## What bags and maps are asked -/

/-- What a bag may be asked for. -/
inductive BagRequest (τ α : Type) where
  | insert (key : BagKey τ) (value : α)
  | get (key : BagKey τ)
  | getAs (key : BagKey τ) (type : τ)
  | erase (key : BagKey τ)
  | contains (key : BagKey τ)
  | insertType (value : α)
  | getType (type : τ)
  /-- replaces the value of a type, if there is one -/
  | replaceType (value : α)
  | eraseType (type : τ)
  | keys
  | size
  | clear

/-- Whether a request is about what is stored under a key, and may change it. -/
def BagRequest.changes {τ α : Type} [DecidableEq τ] [Typed α τ] :
    BagRequest τ α → BagKey τ → Bool
  | .insert key _, other | .erase key, other => other = key
  | .insertType value, other | .replaceType value, other => other = .ofType (Typed.type value)
  | .eraseType type, other => other = .ofType type
  | .clear, _ => true
  | .get _, _ | .getAs _ _, _ | .contains _, _ | .getType _, _ | .keys, _ | .size, _ => false

/-- What a bag answers. -/
inductive BagAnswer (τ α : Type) where
  | value (value : Option α)
  | flag (holds : Bool)
  | keys (keys : List (BagKey τ))
  | size (size : Nat)
  | done

/-- Asks for one thing after the other: all answers, and what is left in the end. -/
def askAll {σ ρ β : Type} (ask : ρ → σ → β × σ) : List ρ → σ → List β × σ
  | [], state => ([], state)
  | request :: requests, state =>
    let (answer, state) := ask request state
    let (answers, state) := askAll ask requests state
    (answer :: answers, state)

/-- Keys in an order, and the values under them. -/
structure OrderedMap (κ α : Type) where
  keys : List κ
  value? : κ → Option α

namespace OrderedMap

variable {κ τ α : Type}

def empty : OrderedMap κ α := ⟨[], fun _ => none⟩

/-- Stores a value. A key that is new comes last. -/
def insert [DecidableEq κ] (map : OrderedMap κ α) (key : κ) (value : α) : OrderedMap κ α :=
  { keys := if key ∈ map.keys then map.keys else map.keys ++ [key]
    value? := Function.update map.value? key (some value) }

/-- Removes a key. The others stay in order. -/
def erase [DecidableEq κ] (map : OrderedMap κ α) (key : κ) : OrderedMap κ α :=
  { keys := map.keys.filter (· ≠ key)
    value? := Function.update map.value? key none }

section

variable [DecidableEq κ] {map : OrderedMap κ α} {p : κ → Bool}

/-- A new value is that of its key and of no other. -/
@[simp]
theorem value?_insert (key other : κ) (value : α) : (map.insert key value).value? other =
    if other = key then some value else map.value? other :=
  Function.update_apply _ _ _ _

/-- A key that is taken out has no value any more. -/
@[simp]
theorem value?_erase (key other : κ) : (map.erase key).value? other =
    if other = key then none else map.value? other :=
  Function.update_apply _ _ _ _

/-- Without a key the order is the same before and after it is stored. -/
theorem filter_keys_insert {key : κ} (h : p key = false) (value : α) :
    (map.insert key value).keys.filter p = map.keys.filter p := by
  rw [insert]
  dsimp only
  split
  · rfl
  · simp [h]

/-- Taking a key out leaves the others in order. -/
theorem filter_keys_erase {key : κ} (h : p key = false) :
    (map.erase key).keys.filter p = map.keys.filter p := by
  rw [erase, List.filter_filter]
  refine List.filter_congr fun other _ => ?_
  by_cases same : other = key <;> simp [same, h]

end

variable [DecidableEq τ] [Typed α τ]

/-- The value of a key, unless it is of another type. -/
def valueAs? (map : OrderedMap (BagKey τ) α) (key : BagKey τ) (type : τ) : Option α :=
  (map.value? key).bind fun value => if Typed.type value = type then some value else none

/-- What is asked for by type is asked for under the key of that type; values of another type are
not given out. -/
def ask : BagRequest τ α → OrderedMap (BagKey τ) α →
    BagAnswer τ α × OrderedMap (BagKey τ) α
  | .insert key value, map => (.value (map.value? key), map.insert key value)
  | .get key, map => (.value (map.value? key), map)
  | .getAs key type, map => (.value (map.valueAs? key type), map)
  | .erase key, map => (.value (map.value? key), map.erase key)
  | .contains key, map => (.flag (map.value? key).isSome, map)
  | .insertType value, map =>
    let type := Typed.type value
    (.value (map.valueAs? (.ofType type) type), map.insert (.ofType type) value)
  | .getType type, map => (.value (map.valueAs? (.ofType type) type), map)
  | .replaceType value, map =>
    let type := Typed.type value
    match map.valueAs? (.ofType type) type with
    | some replaced => (.value (some replaced), map.insert (.ofType type) value)
    | none => (.value none, map)
  | .eraseType type, map =>
    (.value (map.valueAs? (.ofType type) type), map.erase (.ofType type))
  | .keys, map => (.keys map.keys, map)
  | .size, map => (.size map.keys.length, map)
  | .clear, _ => (.done, empty)

/-- What a request is not about keeps its value. -/
theorem value?_ask {request : BagRequest τ α} {key : BagKey τ} (h : request.changes key = false)
    (map : OrderedMap (BagKey τ) α) : (ask request map).2.value? key = map.value? key := by
  cases request with
  | insert own value | insertType value =>
    exact (value?_insert ..).trans (if_neg (of_decide_eq_false h))
  | erase own | eraseType type =>
    exact (value?_erase ..).trans (if_neg (of_decide_eq_false h))
  | replaceType value =>
    -- it is stored only if there is one to replace
    rw [ask]
    split
    · exact (value?_insert ..).trans (if_neg (of_decide_eq_false h))
    · rfl
  | clear => cases h
  | get | getAs | contains | getType | keys | size => rfl

/-- What a request is not about stays in order. -/
theorem filter_keys_ask (request : BagRequest τ α) (map : OrderedMap (BagKey τ) α) :
    (ask request map).2.keys.filter (!request.changes ·) =
      map.keys.filter (!request.changes ·) := by
  cases request with
  | insert own value | insertType value => exact filter_keys_insert (by simp [BagRequest.changes]) _
  | erase own | eraseType type => exact filter_keys_erase (by simp [BagRequest.changes])
  | replaceType value =>
    rw [ask]
    split
    · exact filter_keys_insert (by simp [BagRequest.changes]) _
    · rfl
  | clear => simp [ask, empty, BagRequest.changes]
  | get | getAs | contains | getType | keys | size => rfl

end OrderedMap

namespace Bag

variable {τ α : Type} [DecidableEq τ] {bag : Bag τ α} {map : OrderedMap (BagKey τ) α}
  {entries : List (BagKey τ × α)} {key other : BagKey τ} {value : α}

/-- What a bag answers to a request, and the bag after it. -/
def ask [Typed α τ] : BagRequest τ α → Bag τ α → BagAnswer τ α × Bag τ α
  | .insert key value, bag => (bag.getThenInsert key value).map .value id
  | .get key, bag => (.value (bag.get? key), bag)
  | .getAs key type, bag => (.value (bag.getAs? key type), bag)
  | .erase key, bag => (bag.getThenErase key).map .value id
  | .contains key, bag => (.flag (bag.contains key), bag)
  | .insertType value, bag => (bag.getThenInsertType value).map .value id
  | .getType type, bag => (.value (bag.getType? type), bag)
  | .replaceType value, bag => (bag.getThenReplaceType value).map .value id
  | .eraseType type, bag => (bag.getThenEraseType type).map .value id
  | .keys, bag => (.keys bag.keys, bag)
  | .size, bag => (.size bag.size, bag)
  | .clear, bag => (.done, bag.clear)

/-! ## Entries -/

theorem lookup_cons_of_ne (h : other ≠ key) :
    ((key, value) :: entries).lookup other = entries.lookup other := by
  rw [List.lookup_cons, beq_false_of_ne h]

/-- What is found is what is there. -/
theorem isSome_lookup : (entries.lookup key).isSome ↔ key ∈ entries.map (·.1) := by
  rw [List.lookup_isSome_iff, List.mem_map]
  exact exists_congr fun entry => and_congr_right fun _ => beq_iff_eq.trans eq_comm

/-- A key that is there keeps its place, and another one comes last. -/
theorem keys_insertEntry (key : BagKey τ) (value : α) (entries : List (BagKey τ × α)) :
    (insertEntry key value entries).map (·.1) =
      if key ∈ entries.map (·.1) then entries.map (·.1) else entries.map (·.1) ++ [key] := by
  induction entries with
  | nil => rfl
  | cons entry rest ih =>
    obtain ⟨own, stored⟩ := entry
    by_cases same : own = key
    · simp [insertEntry, same]
    · have later : key ∈ own :: rest.map (·.1) ↔ key ∈ rest.map (·.1) := by
        rw [List.mem_cons, or_iff_right (Ne.symm same)]
      rw [insertEntry, if_neg same, List.map_cons, ih, List.map_cons]
      simp only [later]
      split <;> rfl

/-- Entries take a value in as a map does. -/
theorem lookup_insertEntry (key other : BagKey τ) (value : α) (entries : List (BagKey τ × α)) :
    (insertEntry key value entries).lookup other =
      if other = key then some value else entries.lookup other := by
  induction entries with
  | nil =>
    split
    · rename_i same
      rw [insertEntry, same, List.lookup_cons_self]
    · rename_i different
      rw [insertEntry, lookup_cons_of_ne different]
  | cons entry rest ih =>
    obtain ⟨own, stored⟩ := entry
    by_cases same : own = key
    · subst same
      rw [insertEntry, if_pos rfl]
      split
      · rename_i asked
        rw [asked, List.lookup_cons_self]
      · rename_i asked
        rw [lookup_cons_of_ne asked, lookup_cons_of_ne asked]
    · rw [insertEntry, if_neg same]
      by_cases asked : other = own
      · rw [asked, List.lookup_cons_self, if_neg same, List.lookup_cons_self]
      · rw [lookup_cons_of_ne asked, ih, lookup_cons_of_ne asked]

/-- One entry goes, for keys are distinct, and the order of the others stays. -/
theorem keys_eraseP (distinct : (entries.map (·.1)).Nodup) :
    (entries.eraseP fun entry => entry.1 = key).map (·.1) =
      (entries.map (·.1)).filter (· ≠ key) := by
  induction entries with
  | nil => rfl
  | cons entry rest ih =>
    obtain ⟨own, stored⟩ := entry
    obtain ⟨once, distinct⟩ := List.nodup_cons.1 distinct
    by_cases same : own = key
    · -- the key is not there a second time
      subst same
      have others : ∀ other ∈ rest.map (·.1), decide (other ≠ own) = true := fun other mem =>
        decide_eq_true fun again => once (again ▸ mem)
      rw [List.eraseP_cons_of_pos (by simp), List.map_cons, List.filter_cons_of_neg (by simp),
        List.filter_eq_self.2 others]
    · rw [List.eraseP_cons_of_neg (by simpa using same), List.map_cons, ih distinct, List.map_cons,
        List.filter_cons_of_pos (by simpa using same)]

/-- Behind the entry that goes there is none with its key. -/
theorem lookup_eraseP (distinct : (entries.map (·.1)).Nodup) :
    (entries.eraseP fun entry => entry.1 = key).lookup other =
      if other = key then none else entries.lookup other := by
  induction entries with
  | nil => exact (ite_self _).symm
  | cons entry rest ih =>
    obtain ⟨own, stored⟩ := entry
    obtain ⟨once, distinct⟩ := List.nodup_cons.1 distinct
    by_cases same : own = key
    · subst same
      rw [List.eraseP_cons_of_pos (by simp)]
      split
      · rename_i asked
        rw [asked]
        exact Option.not_isSome_iff_eq_none.1 fun some => once (isSome_lookup.1 some)
      · rename_i asked
        rw [lookup_cons_of_ne asked]
    · rw [List.eraseP_cons_of_neg (by simpa using same)]
      by_cases asked : other = own
      · rw [asked, List.lookup_cons_self, if_neg same, List.lookup_cons_self]
      · rw [lookup_cons_of_ne asked, ih distinct, lookup_cons_of_ne asked]

/-! ## One request -/

/-- A bag holds what an ordered map holds: the same keys in the same order, each once, and the same
values under them. -/
structure Represents (bag : Bag τ α) (map : OrderedMap (BagKey τ) α) : Prop where
  distinct : bag.keys.Nodup
  keys : bag.keys = map.keys
  value? : ∀ key, bag.get? key = map.value? key

theorem represents_empty : Represents ({} : Bag τ α) .empty := ⟨List.nodup_nil, rfl, fun _ => rfl⟩

/-- A bag takes a value in as the map does, at its old place if it has one. -/
theorem Represents.insert (h : Represents bag map) (key : BagKey τ) (value : α) :
    Represents (bag.insert key value) (map.insert key value) := by
  have keys : (bag.insert key value).keys = (map.insert key value).keys := by
    rw [OrderedMap.insert, ← h.keys]
    exact keys_insertEntry key value bag.entries
  refine ⟨?_, keys, fun other => ?_⟩
  · rw [keys, OrderedMap.insert, ← h.keys]
    dsimp only
    split
    · exact h.distinct
    · rename_i new
      exact List.nodup_append.2 ⟨h.distinct, List.nodup_singleton key, by
        rintro own mem _ same rfl
        exact new (List.mem_singleton.1 same ▸ mem)⟩
  · rw [get?, Bag.insert, lookup_insertEntry, OrderedMap.value?_insert, ← h.value?, get?]

/-- A bag gives a value up as the map does. -/
theorem Represents.erase (h : Represents bag map) (key : BagKey τ) :
    Represents (bag.erase key) (map.erase key) := by
  have keys : (bag.erase key).keys = (map.erase key).keys := by
    rw [OrderedMap.erase, ← h.keys]
    exact keys_eraseP h.distinct
  refine ⟨?_, keys, fun other => ?_⟩
  · rw [keys, OrderedMap.erase, ← h.keys]
    exact h.distinct.filter _
  · rw [get?, Bag.erase, lookup_eraseP h.distinct, OrderedMap.value?_erase, ← h.value?, get?]

theorem Represents.contains (h : Represents bag map) (key : BagKey τ) :
    bag.contains key = (map.value? key).isSome := by
  rw [← h.value?, Bool.eq_iff_iff, Bag.contains, List.contains_iff_mem]
  exact isSome_lookup.symm

/-- A bag has as many entries as the map has keys. -/
theorem Represents.size (h : Represents bag map) : bag.size = map.keys.length := by
  rw [← h.keys, Bag.keys, List.length_map]
  rfl

variable [Typed α τ]

/-- A value is handed out if it is of the type that is asked for. -/
theorem ofType?_eq (type : τ) (value : Option α) : ofType? type value =
    value.bind fun value => if Typed.type value = type then some value else none := by
  cases value with
  | none => rfl
  | some value => by_cases own : Typed.type value = type <;> simp [ofType?, own]

/-- A bag hands out the value that the map has, if the type is right. -/
theorem Represents.getAs? (h : Represents bag map) (key : BagKey τ) (type : τ) :
    bag.getAs? key type = map.valueAs? key type := by
  rw [Bag.getAs?, ofType?_eq, h.value?, OrderedMap.valueAs?]

/-- Asked for the same, a bag and a map answer the same and hold the same afterwards. -/
theorem Represents.ask (h : Represents bag map) (request : BagRequest τ α) :
    (Bag.ask request bag).1 = (OrderedMap.ask request map).1 ∧
      Represents (Bag.ask request bag).2 (OrderedMap.ask request map).2 := by
  cases request with
  | insert key value => exact ⟨congrArg _ (h.value? key), h.insert key value⟩
  | get key => exact ⟨congrArg _ (h.value? key), h⟩
  | getAs key type => exact ⟨congrArg _ (h.getAs? key type), h⟩
  | erase key => exact ⟨congrArg _ (h.value? key), h.erase key⟩
  | contains key => exact ⟨congrArg _ (h.contains key), h⟩
  | insertType value => exact ⟨congrArg _ (h.getAs? _ _), h.insert _ value⟩
  | getType type => exact ⟨congrArg _ (h.getAs? _ _), h⟩
  | replaceType value =>
    have stored := h.getAs? (.ofType (Typed.type value)) (Typed.type value)
    simp only [Bag.ask, OrderedMap.ask, getThenReplaceType, replaceType, getType?, stored]
    -- a value that cannot be had is not replaced
    cases map.valueAs? (.ofType (Typed.type value)) (Typed.type value) with
    | none => exact ⟨rfl, h⟩
    | some replaced => exact ⟨rfl, h.insert _ value⟩
  | eraseType type => exact ⟨congrArg _ (h.getAs? _ _), h.erase _⟩
  | keys => exact ⟨congrArg _ h.keys, h⟩
  | size => exact ⟨congrArg _ h.size, h⟩
  | clear => exact ⟨rfl, represents_empty⟩

/-! ## What is not asked for -/

/-- The keys that a request is not about keep their values and their order. -/
structure Undisturbed (request : BagRequest τ α) (before after : Bag τ α) : Prop where
  value : ∀ key, request.changes key = false → after.get? key = before.get? key
  order : after.keys.filter (!request.changes ·) = before.keys.filter (!request.changes ·)

/-- A request leaves the keys alone that it does not name. -/
theorem Represents.undisturbed (h : Represents bag map) (request : BagRequest τ α) :
    Undisturbed request bag (Bag.ask request bag).2 := by
  have after := (h.ask request).2
  refine ⟨fun key other => ?_, ?_⟩
  · rw [after.value?, OrderedMap.value?_ask other, h.value?]
  · rw [after.keys, OrderedMap.filter_keys_ask, h.keys]

/-! ## Any number of requests -/

/-- Any number of requests are answered alike, by induction along them. -/
theorem Represents.askAll (h : Represents bag map) (requests : List (BagRequest τ α)) :
    (askAll Bag.ask requests bag).1 = (askAll OrderedMap.ask requests map).1 ∧
      Represents (askAll Bag.ask requests bag).2 (askAll OrderedMap.ask requests map).2 := by
  induction requests generalizing bag map with
  | nil => exact ⟨rfl, h⟩
  | cons request requests ih =>
    obtain ⟨first, after⟩ := h.ask request
    obtain ⟨others, last⟩ := ih after
    exact ⟨congrArg₂ _ first others, last⟩

/-- Whatever it is asked for, a bag gives the answers of an ordered map. It then holds the same keys
in the same order, none of them twice, with the same values; and whatever it is asked for next
leaves the keys alone that it is not about. -/
theorem answers_as_map (requests : List (BagRequest τ α)) :
    let run := askAll Bag.ask requests {}
    let reference := askAll OrderedMap.ask requests .empty
    run.1 = reference.1 ∧ Represents run.2 reference.2 ∧
      ∀ request, Undisturbed request run.2 (Bag.ask request run.2).2 := by
  obtain ⟨same, last⟩ := represents_empty.askAll requests
  exact ⟨same, last, last.undisturbed⟩

-- A value under the key of another type is replaced and removed, but not given out.
example : (askAll Bag.ask [.insert (.ofType .int) (.bool true), .getType .int,
    .contains (.ofType .int), .insertType (.int 3), .eraseType .int] ({} : PropertyBag)).1 =
      [.value none, .value none, .flag true, .value none, .value (some (.int 3))] := rfl

end Bag

end PhpFrontEnd
