import Mathlib.Data.List.Nodup
import PhpFrontEnd.Writer.Document

/-!
# Reading documents

A document is read back into events: an object of a node shows its start, the events of its
children, and its stop. Documents hold all there is in an event, except that of a span they show the
bounds, and that an object has one field for each name. Hence properties are read back if no two
stand under one name, in no list of them, however deep (`PropertyValue.ofJson?_toJson`), and so is a
node with all that is below it (`OpenNode.Shows.toJson`).
-/

namespace PhpFrontEnd

/-! ## Objects -/

namespace Json

/-- A field of a new name is put behind all others. -/
theorem insertField_of_not_mem {name : String} {value : Json} {object : List (String × Json)}
    (h : name ∉ object.map (·.1)) : insertField name value object = object ++ [(name, value)] := by
  induction object with
  | nil => rfl
  | cons field object ih =>
    obtain ⟨other, old⟩ := field
    simp only [List.map_cons, List.mem_cons, not_or] at h
    rw [insertField, if_neg (Ne.symm h.1), ih h.2]
    rfl

/-- Fields with names of their own are all there, in order. -/
theorem foldl_insertField {object fields : List (String × Json)}
    (h : ((object ++ fields).map (·.1)).Nodup) :
    fields.foldl (fun object (name, value) => insertField name value object) object =
      object ++ fields := by
  induction fields generalizing object with
  | nil => exact (List.append_nil object).symm
  | cons field fields ih =>
    obtain ⟨name, value⟩ := field
    have new : name ∉ object.map (·.1) := by
      intro mem
      rw [List.map_append, List.nodup_append] at h
      exact h.2.2 _ mem _ List.mem_cons_self rfl
    rw [List.append_cons] at h
    rw [List.foldl_cons]
    change fields.foldl _ (insertField name value object) = _
    rw [insertField_of_not_mem new, ih h, ← List.append_cons]

/-- Fields of different names are an object as they are. -/
theorem ofFields_eq {fields : List (String × Json)} (h : (fields.map (·.1)).Nodup) :
    ofFields fields = .object fields :=
  congrArg object (foldl_insertField h)

end Json

/-! ## Properties -/

namespace PropertyValue

mutual

/-- The value of a property that a document shows. -/
def ofJson? : Json → Option PropertyValue
  | .string value => some (.text value)
  | .object fields => (ofFields? fields).map .nested
  | _ => none

/-- The properties that the fields of an object show. -/
def ofFields? : List (String × Json) → Option (List Property)
  | [] => some []
  | (name, value) :: rest => do
    let value ← ofJson? value
    let rest ← ofFields? rest
    return (name, value) :: rest

end

/-- A value in which no list of properties, however deep, has two properties of one name. -/
inductive Distinct : PropertyValue → Prop where
  | text (value : String) : Distinct (.text value)
  | nested {properties : List Property} (names : (properties.map (·.1)).Nodup)
    (values : ∀ property ∈ properties, Distinct property.2) : Distinct (.nested properties)

theorem map_fst_fields (properties : List Property) :
    (fields properties).map (·.1) = properties.map (·.1) := by
  induction properties with
  | nil => rfl
  | cons property properties ih =>
    rw [fields, List.map_cons, List.map_cons, ih]

/-- Properties are read from the fields that they became. -/
theorem ofFields?_fields {properties : List Property}
    (h : ∀ property ∈ properties, ofJson? property.2.toJson = some property.2) :
    ofFields? (fields properties) = some properties := by
  induction properties with
  | nil => rw [fields, ofFields?]
  | cons property properties ih =>
    rw [fields, ofFields?, h property List.mem_cons_self,
      ih fun property mem => h property (List.mem_cons_of_mem _ mem)]
    rfl

theorem toJson_nested {properties : List Property} (h : (properties.map (·.1)).Nodup) :
    (nested properties).toJson = .object (fields properties) := by
  rw [toJson]
  exact Json.ofFields_eq (by rwa [map_fst_fields])

/-- A value without repeated names is read back from its document. -/
theorem ofJson?_toJson {value : PropertyValue} (h : value.Distinct) :
    ofJson? value.toJson = some value := by
  induction h with
  | text value => rw [toJson, ofJson?]
  | nested names values ih =>
    rw [toJson_nested names, ofJson?, ofFields?_fields ih]
    rfl

/-- Properties without repeated names make an object that shows them. -/
theorem exists_object {properties : List Property} (h : Distinct (.nested properties)) :
    ∃ object, (PropertyValue.nested properties).toJson = .object object ∧
      ofFields? object = some properties := by
  cases h with
  | nested names values =>
    refine ⟨fields properties, toJson_nested names, ofFields?_fields fun property mem => ?_⟩
    exact ofJson?_toJson (values property mem)

end PropertyValue

/-! ## Nodes -/

/-- An event as a document shows it: a span is shown by its bounds. -/
inductive ShownEvent where
  | start (kind : String) (first stop : Nat) (properties : List Property)
  | stop

/-- What a document shows of an event. -/
def NodeEvent.shown : NodeEvent → ShownEvent
  | .start kind span properties => .start kind span.start span.stop properties
  | .stop => .stop

/-- An event without repeated names in its properties. -/
def NodeEvent.Distinct : NodeEvent → Prop
  | .start _ _ properties => (PropertyValue.nested properties).Distinct
  | .stop => True

namespace Json

mutual

/-- The events that a document shows, in the order of the source. -/
def shown? : Json → Option (List ShownEvent)
  | .object
      [("kind", .string kind),
       ("span", .object [("start", .int (.ofNat first)), ("end", .int (.ofNat stop))]),
       ("properties", .object properties),
       ("children", .array children)] => do
    let properties ← PropertyValue.ofFields? properties
    let inner ← shownAll? children
    return .start kind first stop properties :: inner ++ [.stop]
  | _ => none

/-- The events of documents, one after the other. -/
def shownAll? : List Json → Option (List ShownEvent)
  | [] => some []
  | document :: rest => do
    let first ← shown? document
    let rest ← shownAll? rest
    return first ++ rest

end

theorem shownAll?_append {documents : List Json} {before after : List ShownEvent} {last : Json}
    (earlier : shownAll? documents = some before) (h : shown? last = some after) :
    shownAll? (documents ++ [last]) = some (before ++ after) := by
  induction documents generalizing before with
  | nil =>
    rw [shownAll?] at earlier
    obtain rfl := Option.some.inj earlier
    rw [List.nil_append, shownAll?, h, shownAll?]
    exact congrArg some (List.append_nil after)
  | cons document documents ih =>
    simp only [shownAll?, Option.bind_eq_bind, Option.bind_eq_some_iff, Option.pure_def,
      Option.some.injEq] at earlier
    obtain ⟨first, shows, rest, later, rfl⟩ := earlier
    rw [List.cons_append, shownAll?, shows, ih later, List.append_assoc]
    rfl

end Json

/-- An open node shows its own start and what has been finished below it. -/
structure OpenNode.Shows (node : OpenNode) (events : List NodeEvent) : Prop where
  distinct : (PropertyValue.nested node.properties).Distinct
  inner : ∃ inner, events = .start node.kind node.span node.properties :: inner ∧
    Json.shownAll? node.children = some (inner.map NodeEvent.shown)

namespace OpenNode.Shows

/-- A node that has just been started shows no more than that. -/
theorem started {kind : String} {span : Span} {properties : List Property}
    (h : (PropertyValue.nested properties).Distinct) :
    ({ kind, span, properties } : OpenNode).Shows [.start kind span properties] where
  distinct := h
  inner := ⟨[], rfl, by rw [Json.shownAll?]; rfl⟩

/-- What is finished below a node is shown behind what it has shown before. -/
theorem adopt {node : OpenNode} {own events : List NodeEvent} {document : Json} (h : node.Shows own)
    (shows : document.shown? = some (events.map NodeEvent.shown)) :
    { node with children := node.children ++ [document] }.Shows (own ++ events) where
  distinct := h.distinct
  inner := by
    obtain ⟨inner, rfl, children⟩ := h.inner
    refine ⟨inner ++ events, rfl, ?_⟩
    rw [List.map_append]
    exact Json.shownAll?_append children shows

/-- The object of a node shows its stop as well. -/
theorem toJson {node : OpenNode} {events : List NodeEvent} (h : node.Shows events) :
    node.toJson.shown? = some ((events ++ [NodeEvent.stop]).map NodeEvent.shown) := by
  obtain ⟨inner, rfl, children⟩ := h.inner
  obtain ⟨object, eq, properties⟩ := PropertyValue.exists_object h.distinct
  rw [OpenNode.toJson, eq]
  change (do
    let properties ← PropertyValue.ofFields? object
    let inner ← Json.shownAll? node.children
    return ShownEvent.start node.kind node.span.start node.span.stop properties :: inner ++
      [ShownEvent.stop]) = _
  rw [properties, children, List.map_append]
  rfl

end OpenNode.Shows

end PhpFrontEnd
