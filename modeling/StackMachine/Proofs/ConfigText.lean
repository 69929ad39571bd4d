import StackMachine.Proofs.RoundTrip
import StackMachine.Proofs.Spelling

/-!
# The texts of configurations

A text is accepted as a configuration if it is a document with values for some
of the fields, and the size is that of a memory.  How the document is laid out,
in which of its forms each part of it is written and which order the members of
an object have makes no difference.

## Main definitions

* `Json.IsNatural`, `Json.IsName`, `Json.HasFields` — documents that are
  numbers, names and records
* `Json.Gives` — the value of a field, or what is assumed if it is missing
* `Config.Describes`, `Config.Written` — documents and texts that describe a
  configuration

## Main statements

* `Json.natural?_eq_some_iff`, `Json.name?_eq_some_iff` — numbers and names are
  decoded as such
* `Json.collect_eq_some_iff` — the members of an object are fields, each of them
  once
* `Config.ofJson?_eq_some_iff` — a document is decoded as the configuration that
  it describes
* `Config.texts_accepted_exactly` — what comes of every text

## Design notes

**Fields are found in some order.**  From an object they are collected with the
last one first, and from an array as they are.  As each is there at most once,
looking one up does not depend on that (`Json.gives_iff`).

**Only what is written counts.**  That a literal has content says something
about it only if it has the form of a text.  In a document that is written every
literal has (`Json.Formed`).
-/

namespace StackMachine

namespace Json

/-! ### Values, names and records -/

/-- A document is a natural number that is written with digits only. -/
inductive IsNatural : Json → Nat → Prop where
  | digits {digits : List Char} {n : Nat} (h : Numeral.Denotes 10 digits n) :
    IsNatural (.number digits) n

/-- A document is a name: a text, or an object with that one key and
nothing behind it. -/
inductive IsName : Json → String → Prop where
  | text {literal : List Char} {name : String} (h : Denotes literal name.toList) :
    IsName (.text literal) name
  | object {literal : List Char} {name : String} (h : Denotes literal name.toList) :
    IsName (.object [(literal, .null)]) name

/-- A member has the name and the value of a field. -/
def IsField (member : List Char × Json) (field : String × Json) : Prop :=
  Denotes member.1 field.1.toList ∧ member.2 = field.2

/-- A document has values for some of the fields of a record: as an object with
a member for each of them, in any order, or as an array of the first fields. -/
inductive HasFields (names : List String) : Json → List (String × Json) → Prop where
  | object {members : List (List Char × Json)} {fields : List (String × Json)}
    (hmembers : List.Forall₂ IsField members fields)
    (hknown : ∀ field ∈ fields, field.1 ∈ names)
    (hdistinct : (fields.map (·.1)).Nodup) :
    HasFields names (.object members) fields
  | array {fields : List (String × Json)} (hfirst : fields.map (·.1) <+: names) :
    HasFields names (.array (fields.map (·.2))) fields

/-- The value of a field is given by its document, or by what is assumed
if there is none. -/
def Gives {α : Type} (IsValue : Json → α → Prop) (assumed : α)
    (fields : List (String × Json)) (name : String) (a : α) : Prop :=
  (∃ document, (name, document) ∈ fields ∧ IsValue document a) ∨
    (∀ document, (name, document) ∉ fields) ∧ a = assumed

variable {document : Json} {members : List (List Char × Json)} {items : List Json}
  {fields found result : List (String × Json)} {names : List String}
  {literal : List Char}

/-- A document is a natural number up to a bound if its literal is that of one. -/
theorem natural?_eq_some_iff {largest n : Nat} :
    document.natural? largest = some n ↔ document.IsNatural n ∧ n ≤ largest := by
  cases document with
  | number digits =>
    have hdigits : digits.all Char.isDigit ↔ IsDigits digits := List.all_eq_true
    rw [natural?]
    constructor
    · intro h
      split at h
      · next hall =>
        cases h
        exact ⟨.digits (denotes_ten_iff.2 ⟨hdigits.1 hall.1, rfl⟩), hall.2⟩
      · cases h
    · rintro ⟨⟨hdenotes⟩, hle⟩
      obtain ⟨hall, rfl⟩ := denotes_ten_iff.1 hdenotes
      rw [if_pos ⟨hdigits.2 hall, hle⟩]
  | null | bool | text | array | object =>
    refine iff_of_false (fun h => ?_) ?_
    · cases h
    · rintro ⟨⟨⟩, -⟩

/-- A document whose texts are texts. -/
def Formed (document : Json) : Prop :=
  ∀ literal, .text literal ∈ document.tokens → TextForm literal

/-- A document that can be written is well formed. -/
theorem formed_of_writtenAs {text : String} (h : document.WrittenAs text) :
    document.Formed :=
  fun _ hmem => h.textForm hmem

theorem tokens_subset_itemTokens (hitem : document ∈ items) :
    document.tokens ⊆ itemTokens items := by
  induction items with
  | nil => cases hitem
  | cons item items ih =>
    intro token htoken
    rw [itemTokens]
    rcases List.mem_cons.1 hitem with rfl | hitem
    · simp [htoken]
    · simp [ih hitem htoken]

theorem tokens_subset_memberTokens {member : List Char × Json}
    (hmember : member ∈ members) :
    .text member.1 ∈ memberTokens members ∧
      member.2.tokens ⊆ memberTokens members := by
  induction members with
  | nil => cases hmember
  | cons first members ih =>
    obtain ⟨key, value⟩ := first
    rw [memberTokens]
    rcases List.mem_cons.1 hmember with rfl | hmember
    · refine ⟨by simp, fun token htoken => ?_⟩
      simp [htoken]
    · obtain ⟨hkey, hvalue⟩ := ih hmember
      refine ⟨by simp [hkey], fun token htoken => ?_⟩
      simp [hvalue htoken]

theorem text_mem_tokens_array (h : .text literal ∈ itemTokens items) :
    .text literal ∈ (array items).tokens := by
  cases items with
  | nil => simp [itemTokens] at h
  | cons item items => simpa [itemTokens, tokens] using h

theorem text_mem_tokens_object (h : .text literal ∈ memberTokens members) :
    .text literal ∈ (object members).tokens := by
  rcases members with _ | ⟨⟨key, value⟩, members⟩
  · simp [memberTokens] at h
  · simpa [memberTokens, tokens] using h

theorem Formed.item (h : (array items).Formed) (hitem : document ∈ items) :
    document.Formed :=
  fun literal hmem =>
    h literal (text_mem_tokens_array (tokens_subset_itemTokens hitem hmem))

theorem Formed.key (h : (object members).Formed) {member : List Char × Json}
    (hmember : member ∈ members) : TextForm member.1 :=
  h member.1 (text_mem_tokens_object (tokens_subset_memberTokens hmember).1)

theorem Formed.value (h : (object members).Formed) {member : List Char × Json}
    (hmember : member ∈ members) : member.2.Formed :=
  fun literal hmem =>
    h literal (text_mem_tokens_object ((tokens_subset_memberTokens hmember).2 hmem))

/-- A document is a name if its literal denotes the characters of the name, with
escapes or without. -/
theorem name?_eq_some_iff (h : document.Formed) {name : String} :
    document.name? = some name ↔ document.IsName name := by
  constructor
  · intro hname
    unfold name? at hname
    split at hname
    · next literal =>
        exact .text ((content?_eq_some_iff (h literal (by simp [tokens]))).1 hname)
    · next literal =>
        exact .object ((content?_eq_some_iff (h.key List.mem_cons_self)).1 hname)
    · cases hname
  · rintro (hdenotes | hdenotes)
    · exact (content?_eq_some_iff hdenotes.textForm).2 hdenotes
    · exact (content?_eq_some_iff hdenotes.textForm).2 hdenotes

/-! ### The fields of a record -/

theorem lookup_cons_eq_none {key name : String} :
    ((key, document) :: found).lookup name = none ↔
      name ≠ key ∧ found.lookup name = none := by
  rw [List.lookup_cons]
  by_cases h : name = key
  · simp [h]
  · rw [beq_false_of_ne h]
    exact (and_iff_right h).symm

/-- The members of an object are collected if they are fields with different
names that are known and have not been found.  What has been found before is
carried along, as the induction needs it. -/
theorem collect_eq_some_iff (hforms : ∀ member ∈ members, TextForm member.1) :
    collect names .refused members found = some result ↔
      ∃ fields, List.Forall₂ IsField members fields ∧
        (∀ field ∈ fields, field.1 ∈ names ∧ found.lookup field.1 = none) ∧
        (fields.map (·.1)).Nodup ∧ fields.reverse ++ found = result := by
  induction members generalizing found with
  | nil => simp [collect]
  | cons member members ih =>
    obtain ⟨literal, value⟩ := member
    obtain ⟨hform, hforms⟩ := List.forall_mem_cons.1 hforms
    constructor
    · intro h
      rw [collect] at h
      split at h
      · cases h
      next key hkey =>
      split at h
      case isFalse => cases h
      next hknown =>
      split at h
      · cases h
      next hfresh =>
      obtain ⟨fields, hmembers, hfields, hdistinct, rfl⟩ := (ih hforms).1 h
      have hfirst : IsField (literal, value) (key, value) :=
        ⟨(content?_eq_some_iff hform).1 hkey, rfl⟩
      refine ⟨(key, value) :: fields, .cons hfirst hmembers, ?_, ?_, by simp⟩
      · refine List.forall_mem_cons.2 ⟨⟨hknown, ?_⟩, fun field hfield => ?_⟩
        · exact Option.not_isSome_iff_eq_none.1 hfresh
        · exact ⟨(hfields field hfield).1,
            (lookup_cons_eq_none.1 (hfields field hfield).2).2⟩
      · refine List.nodup_cons.2 ⟨fun hmem => ?_, hdistinct⟩
        obtain ⟨field, hfield, hsame⟩ := List.mem_map.1 hmem
        exact (lookup_cons_eq_none.1 (hfields field hfield).2).1 hsame
    · rintro ⟨fields, hmembers, hfields, hdistinct, rfl⟩
      obtain ⟨⟨key, _⟩, fields, ⟨hkey, rfl⟩, htail, rfl⟩ :=
        List.forall₂_cons_left_iff.1 hmembers
      obtain ⟨⟨hknown, hfresh⟩, hfields⟩ := List.forall_mem_cons.1 hfields
      obtain ⟨hnew, hdistinct⟩ := List.nodup_cons.1 hdistinct
      rw [collect, (content?_eq_some_iff hform).2 hkey]
      simp only [hknown, hfresh, if_true, Option.isSome_none,
        Bool.false_eq_true, if_false]
      refine (ih hforms).2 ⟨fields, htail, fun field hfield => ?_,
        hdistinct, by simp⟩
      have hne : field.1 ≠ key :=
        fun hsame => hnew (List.mem_map.2 ⟨field, hfield, hsame⟩)
      exact ⟨(hfields field hfield).1,
        lookup_cons_eq_none.2 ⟨hne, (hfields field hfield).2⟩⟩

/-- Among fields with different names, each is found under its own. -/
theorem lookup_eq_some_iff (h : (fields.map (·.1)).Nodup) {name : String} :
    fields.lookup name = some document ↔ (name, document) ∈ fields := by
  induction fields with
  | nil => simp
  | cons field fields ih =>
    obtain ⟨key, value⟩ := field
    obtain ⟨hnew, hdistinct⟩ := List.nodup_cons.1 h
    rw [List.lookup_cons, List.mem_cons]
    by_cases hname : name = key
    · subst hname
      have habsent : (name, document) ∉ fields :=
        fun hmem => hnew (List.mem_map.2 ⟨(name, document), hmem, rfl⟩)
      simp [habsent, eq_comm]
    · rw [beq_false_of_ne hname]
      simp [hname, ih hdistinct]

/-- No two fields of a document have the same name. -/
theorem HasFields.nodup (h : document.HasFields names fields)
    (hnames : names.Nodup) :
    (fields.map (·.1)).Nodup := by
  cases h with
  | object _ _ hdistinct => exact hdistinct
  | array hfirst => exact hnames.sublist hfirst.sublist

/-- The fields of a document are found, perhaps in another order.  The order
does not matter to what is looked up in them. -/
theorem HasFields.fields?_eq_some (h : document.HasFields names fields)
    (hformed : document.Formed) :
    ∃ result, document.fields? names .refused = some result ∧
      result.Perm fields := by
  cases h with
  | @object members fields hmembers hknown hdistinct =>
    have hforms : ∀ member ∈ members, TextForm member.1 := fun member hmember =>
      hformed.key hmember
    refine ⟨fields.reverse, ?_, fields.reverse_perm⟩
    refine (collect_eq_some_iff hforms).2
      ⟨fields, hmembers, ?_, hdistinct, List.append_nil _⟩
    exact fun field hfield => ⟨hknown field hfield, rfl⟩
  | @array fields hfirst =>
    obtain ⟨others, rfl⟩ := hfirst
    have hlength :
        (fields.map (·.2)).length ≤ (fields.map (·.1) ++ others).length := by simp
    have hzip : (fields.map (·.1) ++ others).zip (fields.map (·.2)) = fields := by
      rw [← List.append_nil (fields.map (·.2)), List.zip_append (by simp),
        List.zip_map']
      simp
    refine ⟨fields, ?_, .refl fields⟩
    rw [fields?, if_pos hlength, hzip]

/-- What is found are the fields of the document, perhaps in another order.  A
document with anything else in it is refused. -/
theorem hasFields_of_fields? (hformed : document.Formed)
    (h : document.fields? names .refused = some result) :
    ∃ fields, document.HasFields names fields ∧ result.Perm fields := by
  unfold fields? at h
  split at h
  · next members =>
    have hforms : ∀ member ∈ members, TextForm member.1 := fun member hmember =>
      hformed.key hmember
    obtain ⟨fields, hmembers, hfields, hdistinct, rfl⟩ :=
      (collect_eq_some_iff hforms).1 h
    rw [List.append_nil]
    exact ⟨fields, .object hmembers
      (fun field hfield => (hfields field hfield).1) hdistinct,
      fields.reverse_perm⟩
  · next items =>
    split at h
    · next hlength =>
      cases h
      have hvalues : (names.zip items).map (·.2) = items := List.map_snd_zip hlength
      have hkeys : (names.zip items).map (·.1) <+: names := by
        rw [List.zip_eq_zip_take_min, Nat.min_eq_right hlength, List.take_length,
          List.map_fst_zip (by simp)]
        exact List.take_prefix _ _
      have harray :
          HasFields names (array ((names.zip items).map (·.2))) (names.zip items) :=
        .array hkeys
      rw [hvalues] at harray
      exact ⟨names.zip items, harray, .refl _⟩
    · cases h
  · cases h

/-- The document of a field is a part of the document of the record, so it is
well formed if that is. -/
theorem HasFields.formed (h : document.HasFields names fields)
    (hformed : document.Formed) {field : String × Json}
    (hfield : field ∈ fields) : field.2.Formed := by
  cases h with
  | @object members fields hmembers hknown hdistinct =>
    have hsame : List.Forall₂ (· = ·) (members.map (·.2)) (fields.map (·.2)) := by
      rw [List.forall₂_map_left_iff, List.forall₂_map_right_iff]
      exact hmembers.imp fun _ _ h => h.2
    rw [List.forall₂_eq_eq_eq] at hsame
    obtain ⟨member, hmember, hvalue⟩ :=
      List.mem_map.1
        (hsame ▸ List.mem_map_of_mem hfield : field.2 ∈ members.map (·.2))
    exact hvalue ▸ hformed.value hmember
  | @array fields hfirst => exact hformed.item (List.mem_map.2 ⟨field, hfield, rfl⟩)

/-- The document of a field, or what is assumed if there is none.  A value that
is there but is no value of its kind is not replaced by what is assumed. -/
theorem gives_iff {α : Type} {decode : Json → Option α}
    {IsValue : Json → α → Prop} {assumed a : α} {name : String}
    (h : document.HasFields names fields) (hformed : document.Formed)
    (hnames : names.Nodup) (hperm : result.Perm fields)
    (hdecode : ∀ value : Json, value.Formed →
      (decode value = some a ↔ IsValue value a)) :
    (match result.lookup name with
      | some value => decode value
      | none => some assumed) = some a ↔ Gives IsValue assumed fields name a := by
  have hdistinct : (result.map (·.1)).Nodup :=
    (hperm.map (·.1)).nodup_iff.2 (h.nodup hnames)
  have hfound {document : Json} :
      result.lookup name = some document ↔ (name, document) ∈ fields := by
    rw [lookup_eq_some_iff hdistinct, hperm.mem_iff]
  cases hlookup : result.lookup name with
  | none =>
    have hmissing : ∀ document, (name, document) ∉ fields := by
      intro document hmem
      rw [hfound.2 hmem] at hlookup
      cases hlookup
    constructor
    · intro ha
      cases ha
      exact .inr ⟨hmissing, rfl⟩
    · rintro (⟨document, hmem, -⟩ | ⟨-, rfl⟩)
      · exact absurd hmem (hmissing document)
      · rfl
  | some value =>
    have hmem := hfound.1 hlookup
    have hvalue := hdecode value (h.formed hformed hmem)
    constructor
    · intro ha
      exact .inl ⟨value, hmem, hvalue.1 ha⟩
    · rintro (⟨document, hdocument, ha⟩ | ⟨hmissing, -⟩)
      · rw [hfound.2 hdocument] at hlookup
        cases hlookup
        exact hvalue.2 ha
      · exact absurd hmem (hmissing value)

end Json

namespace OpcodePolicy

theorem ofJson?_eq_some_iff {document : Json} (h : document.Formed)
    {policy : OpcodePolicy} :
    ofJson? document = some policy ↔ document.IsName policy.name := by
  rw [ofJson?, Option.bind_eq_some_iff]
  constructor
  · rintro ⟨name, hname, hfind⟩
    have hsame : policy.name = name := by simpa using List.find?_some hfind
    subst hsame
    exact (Json.name?_eq_some_iff h).1 hname
  · intro hname
    exact ⟨policy.name, (Json.name?_eq_some_iff h).2 hname, by cases policy <;> rfl⟩

end OpcodePolicy

namespace Config

/-- The names of the fields of a configuration. -/
def fieldNames : List String := ["memory_size", "opcode_policy"]

/-- A document is a size of memory: a number of sixty-four bits. -/
def IsSize (document : Json) (size : Nat) : Prop :=
  document.IsNatural size ∧ size ≤ 0xffffffffffffffff

/-- A document is a policy: its name. -/
def IsPolicy (document : Json) (policy : OpcodePolicy) : Prop :=
  document.IsName policy.name

/-- A document describes a configuration: a record of its size and its policy,
of which each may be left out. -/
def Describes (document : Json) (c : Config) : Prop :=
  ∃ fields, document.HasFields fieldNames fields ∧
    Json.Gives IsSize 65536 fields "memory_size" c.memorySize ∧
    Json.Gives IsPolicy .strict fields "opcode_policy" c.opcodePolicy

/-- A text is a document that describes a configuration. -/
def Written (text : String) (c : Config) : Prop :=
  ∃ document : Json, document.WrittenAs text ∧ Describes document c

section Fields

variable {document : Json} {fields result : List (String × Json)} {c : Config}

/-- The size that a document gives is what is decoded. -/
theorem sizeIn_eq_some_iff (h : document.HasFields fieldNames fields)
    (hformed : document.Formed) (hperm : result.Perm fields) {size : Nat} :
    sizeIn result = some size ↔ Json.Gives IsSize 65536 fields "memory_size" size :=
  Json.gives_iff h hformed (by decide) hperm fun _ _ => Json.natural?_eq_some_iff

/-- So is the policy. -/
theorem policyIn_eq_some_iff (h : document.HasFields fieldNames fields)
    (hformed : document.Formed) (hperm : result.Perm fields)
    {policy : OpcodePolicy} :
    policyIn result = some policy ↔
      Json.Gives IsPolicy .strict fields "opcode_policy" policy :=
  Json.gives_iff h hformed (by decide) hperm fun _ hvalue =>
    OpcodePolicy.ofJson?_eq_some_iff hvalue

/-- A document is decoded as the configuration that it describes, and any
other is refused. -/
theorem ofJson?_eq_some_iff (hformed : document.Formed) :
    ofJson? document = some c ↔ Describes document c := by
  rw [ofJson?_eq]
  constructor
  · intro h
    obtain ⟨result, hresult, h⟩ := Option.bind_eq_some_iff.1 h
    obtain ⟨size, hsize, h⟩ := Option.bind_eq_some_iff.1 h
    obtain ⟨policy, hpolicy, h⟩ := Option.bind_eq_some_iff.1 h
    cases h
    obtain ⟨fields, hfields, hperm⟩ := Json.hasFields_of_fields? hformed hresult
    exact ⟨fields, hfields, (sizeIn_eq_some_iff hfields hformed hperm).1 hsize,
      (policyIn_eq_some_iff hfields hformed hperm).1 hpolicy⟩
  · rintro ⟨fields, hfields, hsize, hpolicy⟩
    obtain ⟨result, hresult, hperm⟩ := hfields.fields?_eq_some hformed
    rw [fieldNames] at hresult
    rw [hresult, Option.bind_some,
      (sizeIn_eq_some_iff hfields hformed hperm).2 hsize, Option.bind_some,
      (policyIn_eq_some_iff hfields hformed hperm).2 hpolicy, Option.bind_some]

end Fields

/-- A text is decoded as a configuration exactly if one is written in it. -/
theorem decode_eq_some_iff {text : String} {c : Config} :
    Json.decode ofJson? text = some c ↔ Written text c := by
  rw [Json.decode, Option.bind_eq_some_iff]
  refine exists_congr fun document => ?_
  rw [Json.parse?_eq_some_iff]
  refine and_congr_right fun hwritten => ?_
  exact ofJson?_eq_some_iff (Json.formed_of_writtenAs hwritten)

/-- A text is accepted as a configuration exactly if it is one document that
describes it and the size is that of a memory.  If only the size is wrong, it is
reported; every other text is malformed, whatever is wrong with it. -/
theorem texts_accepted_exactly (text : String) :
    (∀ c, ofText text = .ok c ↔ Written text c ∧ 2 ≤ c.memorySize ∧
      c.memorySize ≤ 65536) ∧
      (∀ size, ofText text = .error (.memorySize size) ↔
        (∃ c, Written text c ∧ c.memorySize = size) ∧ ¬(2 ≤ size ∧ size ≤ 65536)) ∧
      (ofText text = .error .malformed ↔ ∀ c, ¬Written text c) := by
  have hwritten (c : Config) : Written text c ↔
      (Json.parse? text).bind ofJson? = some c :=
    decode_eq_some_iff.symm
  simp only [hwritten, ofText]
  cases (Json.parse? text).bind ofJson? with
  | none => simp
  | some found =>
    by_cases hsize : 2 ≤ found.memorySize ∧ found.memorySize ≤ 65536
    · have hvalid : found.validate = .ok () := if_pos hsize
      simp only [hvalid, Except.map]
      grind
    · have hvalid :
          found.validate = .error (.memorySize found.memorySize) := if_neg hsize
      simp only [hvalid, Except.map]
      grind

/-- The key of the size is written with an escape, and the policy as an object. -/
example :
    ofText
      " \x7b\"memory\\u005fsize\" : 2,\n\"opcode_policy\":\x7b\"permissive\":null\x7d\x7d" =
    .ok ⟨2, .permissive⟩ := by
  decide +kernel

end Config

end StackMachine
