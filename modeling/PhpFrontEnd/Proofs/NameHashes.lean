import Mathlib.Data.List.Forall2
import PhpFrontEnd.Name
import PhpFrontEnd.Proofs.Encoding

/-!
# What names hash to

Names that are the same must have the same hash, whatever the hash function is, and names that are
not should differ in what is hashed. What is hashed of a name are the octets of its text, with ASCII
letters in lower case, and an octet that ends them (`Name.hashBytes_eq`). Since UTF-8 tells texts
apart and has no use for the octet at the end, the names can be told from the octets, also when the
octets of several names follow one another (`Name.hashBytes_append_inj`). So qualified names can be
told from theirs.
-/

namespace PhpFrontEnd

/-! ## Octets of a text in lower case -/

/-- An octet, in lower case if it is an ASCII letter. -/
def lowerOctet (b : UInt8) : UInt8 := if 0x41 ≤ b ∧ b ≤ 0x5A then b + 0x20 else b

namespace Utf8

/-- The octets of a character outside of ASCII are outside of ASCII, and none is the last octet. -/
theorem octet_of_mem_encode {c : Char} {b : UInt8} (mem : b ∈ encode c) :
    b.toNat < 0xFF ∧ (b.toNat = c.toNat ∨ 0x80 ≤ b.toNat) := by
  have valid : c.toNat < 0xD800 ∨ 0xDFFF < c.toNat ∧ c.toNat < 0x110000 := c.valid
  have octet {n : Nat} (lt : n < 0xFF) (h : n = c.toNat ∨ 0x80 ≤ n) :
      (UInt8.ofNat n).toNat < 0xFF ∧
        ((UInt8.ofNat n).toNat = c.toNat ∨ 0x80 ≤ (UInt8.ofNat n).toNat) := by
    rw [toNat_ofNat_octet (Nat.lt_succ_of_lt lt)]
    exact ⟨lt, h⟩
  rw [encode] at mem
  split at mem
  · simp only [List.mem_cons, List.not_mem_nil, or_false] at mem
    subst mem
    exact octet (by omega) (.inl rfl)
  split at mem
  · simp only [List.mem_cons, List.not_mem_nil, or_false] at mem
    rcases mem with rfl | rfl <;> exact octet (by omega) (.inr (by omega))
  split at mem
  · simp only [List.mem_cons, List.not_mem_nil, or_false] at mem
    rcases mem with rfl | rfl | rfl <;> exact octet (by omega) (.inr (by omega))
  · simp only [List.mem_cons, List.not_mem_nil, or_false] at mem
    rcases mem with rfl | rfl | rfl | rfl <;> exact octet (by omega) (.inr (by omega))

/-- The octet that ends a name is in no text. -/
theorem last_not_mem_encodeAll (text : List Char) : 0xFF ∉ encodeAll text := by
  intro mem
  obtain ⟨c, -, mem⟩ := List.mem_flatMap.1 mem
  exact absurd (octet_of_mem_encode mem).1 (Nat.lt_irrefl _)

/-- Different texts have different octets. -/
theorem encodeAll_inj {a b : List Char} (eq : encodeAll a = encodeAll b) : a = b := by
  have same := congrArg decode? eq
  rw [decode?_encodeAll, decode?_encodeAll] at same
  exact Option.some.inj same

/-- An ASCII character is one octet. -/
theorem encode_ascii {c : Char} (h : c.toNat < 0x80) : encode c = [.ofNat c.toNat] := by
  rw [encode, if_pos h]

theorem toNat_toLower {c : Char} (upper : 0x41 ≤ c.toNat ∧ c.toNat ≤ 0x5A) :
    c.toLower.toNat = c.toNat + 0x20 := by
  have small : c.val.toNat ≤ 0x5A := upper.2
  have lower := congrArg Char.toNat (dif_pos upper : c.toLower = _)
  refine lower.trans ?_
  change (c.val + 0x20).toNat = c.val.toNat + 0x20
  rw [UInt32.toNat_add]
  exact Nat.mod_eq_of_lt (by simp only [UInt32.reduceToNat]; omega)

/-- Lower case can be taken of a character or of its octets. -/
theorem encode_toLower (c : Char) : encode c.toLower = (encode c).map lowerOctet := by
  by_cases upper : 0x41 ≤ c.toNat ∧ c.toNat ≤ 0x5A
  · have lower := toNat_toLower upper
    have range : 0x41 ≤ UInt8.ofNat c.toNat ∧ UInt8.ofNat c.toNat ≤ 0x5A := by
      simp only [UInt8.le_iff_toNat_le, toNat_ofNat_octet (by omega : c.toNat < 0x100)]
      exact upper
    rw [encode_ascii (by omega), encode_ascii (by omega), lower, List.map_singleton, lowerOctet,
      if_pos range, UInt8.ofNat_add]
    rfl
  · have same : c.toLower = c := dif_neg upper
    have other : ∀ b ∈ encode c, lowerOctet b = b := by
      intro b mem
      have octet := (octet_of_mem_encode mem).2
      rw [lowerOctet, if_neg]
      simp only [UInt8.le_iff_toNat_le, UInt8.reduceToNat]
      omega
    rw [same, List.map_congr_left other, List.map_id']

end Utf8

/-! ## Single names -/

/-- Where an octet ends what it has no other place in, the end can be found. -/
theorem append_inj_of_not_mem {α : Type} {stop : α} {a b rest more : List α} (ha : stop ∉ a)
    (hb : stop ∉ b) (eq : a ++ stop :: rest = b ++ stop :: more) : a = b ∧ rest = more := by
  induction a generalizing b with
  | nil =>
    cases b with
    | nil => exact ⟨rfl, (List.cons.inj eq).2⟩
    | cons y b => exact absurd (by rw [(List.cons.inj eq).1]; exact List.mem_cons_self) hb
  | cons x a ih =>
    cases b with
    | nil => exact absurd (by rw [(List.cons.inj eq).1]; exact List.mem_cons_self) ha
    | cons y b =>
      obtain ⟨rfl, tail⟩ := List.cons.inj eq
      obtain ⟨rfl, later⟩ :=
        ih (List.not_mem_of_not_mem_cons ha) (List.not_mem_of_not_mem_cons hb) tail
      exact ⟨rfl, later⟩

namespace Name

variable {a b : Name}

/-- What is hashed of a name is its text in UTF-8, octet for octet in lower case, and the end. -/
theorem hashBytes_eq (name : Name) :
    name.hashBytes = (Utf8.encodeAll name.value.toList).map lowerOctet ++ [0xFF] := by
  rw [hashBytes, Utf8.encodeAll, Utf8.encodeAll, List.flatMap_map, List.map_flatMap]
  simp only [Utf8.encode_toLower]

/-- Names are the same if they are so in lower case. -/
theorem sameAs_iff_lowerCase : a.sameAs b ↔ lowerCase a.value = lowerCase b.value := by
  rw [sameAs, eqIgnoringCase, beq_iff_eq]

/-- The octets of a name can be told from those that come after them. -/
theorem hashBytes_append_inj {rest more : List UInt8}
    (eq : a.hashBytes ++ rest = b.hashBytes ++ more) : a.hashBytes = b.hashBytes ∧ rest = more := by
  rw [hashBytes, hashBytes, List.append_assoc, List.append_assoc] at eq
  obtain ⟨same, later⟩ := append_inj_of_not_mem (Utf8.last_not_mem_encodeAll _)
    (Utf8.last_not_mem_encodeAll _) eq
  exact ⟨congrArg (· ++ [0xFF]) same, later⟩

/-- Names are the same if the same is hashed of them. -/
theorem sameAs_iff_hashBytes : a.sameAs b ↔ a.hashBytes = b.hashBytes := by
  rw [sameAs_iff_lowerCase, lowerCase, lowerCase, String.ofList_inj]
  constructor
  · intro same
    rw [hashBytes, same, ← hashBytes]
  · intro same
    exact Utf8.encodeAll_inj (List.append_cancel_right same)

/-- What is hashed of one name does not begin what is hashed of another. -/
theorem sameAs_iff_prefix : a.sameAs b ↔ a.hashBytes <+: b.hashBytes := by
  rw [sameAs_iff_hashBytes]
  constructor
  · intro same
    refine ⟨[], ?_⟩
    rw [List.append_nil, same]
  · rintro ⟨rest, eq⟩
    rw [← List.append_nil b.hashBytes] at eq
    exact (hashBytes_append_inj eq).1

end Name

/-! ## Qualified names -/

namespace QualifiedName

variable {a b : QualifiedName}

/-- Qualified names are the same part by part. -/
theorem sameAs_iff : a.sameAs b ↔ a.name.sameAs b.name ∧
    List.Forall₂ (fun a b => a.sameAs b) a.namespaces b.namespaces ∧
      a.fullyQualified = b.fullyQualified := by
  rw [sameAs, List.forall₂_iff_zip]
  simp only [Bool.and_eq_true, beq_iff_eq, List.all_eq_true, Prod.forall, and_assoc]

/-- The octets of names one after the other tell each of these names. -/
theorem forall₂_of_flatMap {names others : List Name}
    (eq : names.flatMap Name.hashBytes = others.flatMap Name.hashBytes) :
    List.Forall₂ (fun a b => a.sameAs b) names others := by
  have notEmpty (name : Name) (more : List UInt8) : name.hashBytes ++ more ≠ [] := by
    simp [Name.hashBytes]
  induction names generalizing others with
  | nil =>
    cases others with
    | nil => exact .nil
    | cons first more => exact absurd eq.symm (notEmpty first _)
  | cons first more ih =>
    cases others with
    | nil => exact absurd eq (notEmpty first _)
    | cons other rest =>
      obtain ⟨same, later⟩ := Name.hashBytes_append_inj eq
      exact .cons (Name.sameAs_iff_hashBytes.2 same) (ih later)

/-- Of names that are the same one by one the same is hashed. -/
theorem flatMap_of_forall₂ {names others : List Name}
    (h : List.Forall₂ (fun a b => a.sameAs b) names others) :
    names.flatMap Name.hashBytes = others.flatMap Name.hashBytes := by
  induction h with
  | nil => rfl
  | cons same later ih =>
    rw [List.flatMap_cons, List.flatMap_cons, Name.sameAs_iff_hashBytes.1 same, ih]

theorem length_wordBytes (n : Nat) : (wordBytes n).length = 8 := by
  rw [wordBytes, List.length_map, List.length_range]

/-- Qualified names are the same if the same is hashed of them: their number tells where they
end. -/
theorem sameAs_iff_hashBytes : a.sameAs b ↔ a.hashBytes = b.hashBytes := by
  rw [sameAs_iff]
  constructor
  · rintro ⟨name, namespaces, fullyQualified⟩
    rw [hashBytes, hashBytes, Name.sameAs_iff_hashBytes.1 name, namespaces.length_eq,
      flatMap_of_forall₂ namespaces, fullyQualified]
  · intro eq
    rw [hashBytes, hashBytes] at eq
    simp only [List.append_assoc] at eq
    obtain ⟨name, later⟩ := Name.hashBytes_append_inj eq
    obtain ⟨-, rest⟩ := List.append_inj later (by rw [length_wordBytes, length_wordBytes])
    -- the flag is one octet at the end
    obtain ⟨namespaces, flag⟩ := List.append_inj' rest rfl
    refine ⟨Name.sameAs_iff_hashBytes.2 name, forall₂_of_flatMap namespaces, ?_⟩
    revert flag
    cases a.fullyQualified <;> cases b.fullyQualified <;> decide

end QualifiedName

/-! ## Equality and hashing -/

/-- To be alike in one respect is an equivalence. -/
theorem equivalence_of_iff {α β : Type} {same : α → α → Bool} {view : α → β}
    (h : ∀ a b, same a b ↔ view a = view b) : Equivalence fun a b => same a b := by
  refine ⟨fun a => (h a a).2 rfl, fun {a b} ab => ?_, fun {a b c} ab bc => ?_⟩
  · exact (h b a).2 ((h a b).1 ab).symm
  · exact (h a c).2 (((h a b).1 ab).trans ((h b c).1 bc))

/-- **Names that are the same, and only those, hash alike.** What is hashed of a name is its text in
UTF-8, octet for octet in lower case, and an end. Two names are the same exactly if their texts in
lower case are, and exactly then what is hashed of them is equal. What is hashed of a name never
begins what is hashed of another, so names can be told apart when more is hashed after them.
Qualified names are the same exactly if all that is hashed of them is equal. Both are
equivalences. -/
theorem hashed_alike_iff_same :
    (∀ name : Name,
      name.hashBytes = (Utf8.encodeAll name.value.toList).map lowerOctet ++ [0xFF]) ∧
    (∀ a b : Name,
      (a.sameAs b ↔ lowerCase a.value = lowerCase b.value) ∧
      (a.sameAs b ↔ a.hashBytes = b.hashBytes) ∧
      (a.sameAs b ↔ a.hashBytes <+: b.hashBytes)) ∧
    (∀ a b : QualifiedName, a.sameAs b ↔ a.hashBytes = b.hashBytes) ∧
    Equivalence (fun a b : Name => a.sameAs b) ∧
    Equivalence (fun a b : QualifiedName => a.sameAs b) := by
  have names (a b : Name) : a.sameAs b ↔ a.hashBytes = b.hashBytes := Name.sameAs_iff_hashBytes
  have qualified (a b : QualifiedName) : a.sameAs b ↔ a.hashBytes = b.hashBytes :=
    QualifiedName.sameAs_iff_hashBytes
  refine ⟨Name.hashBytes_eq, fun a b => ⟨Name.sameAs_iff_lowerCase, names a b, ?_⟩, qualified,
    equivalence_of_iff names, equivalence_of_iff qualified⟩
  exact Name.sameAs_iff_prefix

end PhpFrontEnd
