import Ocfs2.O2cb.Config

set_option autoImplicit false

namespace Ocfs2.O2cb

def isControl (c : Char) : Bool := c.toNat < 32 || c.toNat == 127

def Plain (s : Text) : Prop := ∀ c ∈ s, isspace c = false ∧ c ≠ '\\' ∧ isControl c = false

def Identifier (s : Text) : Prop := s ≠ [] ∧ ∀ c ∈ s, isIdentifierChar c = true

instance (s : Text) : Decidable (Plain s) :=
  List.decidableBAll (fun c => isspace c = false ∧ c ≠ '\\' ∧ isControl c = false) s

instance (s : Text) : Decidable (Identifier s) :=
  @instDecidableAnd _ _ inferInstance (List.decidableBAll (fun c => isIdentifierChar c = true) s)

variable {c : Char} {s stanza_name : Text} {token : Token}

theorem Plain.ne_newline (plain : Plain s) (mem : c ∈ s) : c ≠ '\n' := by
  rintro rfl
  exact absurd (plain _ mem).2.2 (by decide)

theorem Plain.not_scanWhitespace (plain : Plain s) (mem : c ∈ s) :
    isScanWhitespace c = false := by
  obtain ⟨space, -, control⟩ := plain c mem
  simp only [isScanWhitespace, Bool.or_eq_false_iff, beq_eq_false_iff_ne]
  refine ⟨⟨?_, ?_⟩, ?_⟩ <;> rintro rfl <;> revert space control <;> decide

theorem Plain.not_asciiSpace (plain : Plain s) (mem : c ∈ s) : isAsciiSpace c = false := by
  obtain ⟨space, -⟩ := plain c mem
  by_contra found
  simp only [isAsciiSpace, Bool.not_eq_false, Bool.or_eq_true, beq_iff_eq] at found
  rcases found with (((rfl | rfl) | rfl) | rfl) | rfl <;> cases space

theorem tokens_append (s t : Text) (other : isIdentifierChar c = false) :
    tokens (s ++ c :: t) = tokens s ++ .char c :: tokens t := by
  induction s with
  | nil => simp [tokens, other]
  | cons d s ih =>
    rw [List.cons_append, tokens, tokens, ih]
    split
    · cases tokens s with
      | nil => rfl
      | cons token rest => cases token <;> rfl
    · rfl

theorem tokens_cons (t : Text) (other : isIdentifierChar c = false) :
    tokens (c :: t) = .char c :: tokens t := tokens_append [] t other

theorem tokens_identifier (word : Identifier s) : tokens s = [.identifier s] := by
  obtain ⟨filled, chars⟩ := word
  induction s with
  | nil => exact absurd rfl filled
  | cons c s ih =>
    rw [tokens, if_pos (chars c (by simp))]
    cases s with
    | nil => rfl
    | cons d s => rw [ih (by simp) fun e mem => chars e (by simp [List.mem_cons.mp mem])]

def Token.text : Token → Text
  | .identifier name => name
  | .char c => [c]

theorem flatMap_text_tokens (s : Text) : (tokens s).flatMap Token.text = s := by
  induction s with
  | nil => rfl
  | cons c s ih =>
    rw [tokens]
    split
    · cases scanned : tokens s with
      | nil => rw [← ih, scanned]; rfl
      | cons token rest => cases token <;> rw [scanned] at ih <;> rw [← ih] <;> rfl
    · rw [List.flatMap_cons, ih]
      rfl

theorem mem_of_char_mem_tokens (mem : Token.char c ∈ tokens s) : c ∈ s := by
  rw [← flatMap_text_tokens s]
  exact List.mem_flatMap.mpr ⟨_, mem, by simp [Token.text]⟩

def Token.Inner (token : Token) : Prop := ∀ c, token = .char c → c ≠ '\n' ∧ c ≠ '\\'

theorem Plain.inner (plain : Plain s) (mem : token ∈ tokens s) : token.Inner := by
  rintro c rfl
  have inside := mem_of_char_mem_tokens mem
  exact ⟨plain.ne_newline inside, (plain c inside).2.1⟩

theorem parseAttrValue_inner (inner : token.Inner) (attr_value : Text) (rest : List Token) :
    parseAttrValue .value false attr_value (token :: rest) =
      parseAttrValue .value false (attr_value ++ token.text) rest := by
  cases token with
  | identifier name => simp [parseAttrValue, Token.text]
  | char c =>
    obtain ⟨newline, backslash⟩ := inner c rfl
    simp [parseAttrValue, attrChar, Token.text, newline, backslash]

theorem parseAttrValue_line {inside : List Token} (inner : ∀ token ∈ inside, token.Inner) (attr_value : Text)
    (rest : List Token) :
    parseAttrValue .value false attr_value (inside ++ .char '\n' :: rest) =
      (some (attr_value ++ inside.flatMap Token.text), rest) := by
  induction inside generalizing attr_value with
  | nil => simp [parseAttrValue]
  | cons token inside ih =>
    rw [List.cons_append, parseAttrValue_inner (inner token (by simp)),
      ih fun other mem => inner other (by simp [mem])]
    simp

theorem parseAttrValue_start (inner : token.Inner)
    (visible : ∀ c, token = .char c → isScanWhitespace c = false) (rest : List Token) :
    parseAttrValue .equal false [] (token :: rest) = parseAttrValue .value false [] (token :: rest) := by
  cases token with
  | identifier name => simp [parseAttrValue]
  | char c =>
    obtain ⟨newline, backslash⟩ := inner c rfl
    simp [parseAttrValue, attrChar, newline, backslash, visible c rfl]

theorem parseAttrValue_plain {value : Text} (plain : Plain value) (filled : value ≠ []) (rest : List Token) :
    parseAttrValue .equal false [] (tokens value ++ .char '\n' :: rest) = (some value, rest) := by
  have inner : ∀ token ∈ tokens value, token.Inner := fun token mem => plain.inner mem
  have all := flatMap_text_tokens value
  cases scanned : tokens value with
  | nil =>
    rw [scanned] at all
    exact absurd all.symm filled
  | cons token inside =>
    have first : token ∈ tokens value := by simp [scanned]
    have visible : ∀ c, token = .char c → isScanWhitespace c = false := by
      rintro c rfl
      exact plain.not_scanWhitespace (mem_of_char_mem_tokens first)
    rw [List.cons_append, parseAttrValue_start (inner token first) visible, ← List.cons_append, ← scanned,
      parseAttrValue_line inner, flatMap_text_tokens, List.nil_append]

def valueTokens (value : Text) : List Token := if value = [] then [] else .char ' ' :: tokens value

theorem tokens_foreachAttrAppend {attr : Text × Text} (word : Identifier attr.1) (plain : Plain attr.2) (t : Text) :
    tokens (foreachAttrAppend attr ++ t) =
      .char '\t' :: .identifier attr.1 :: .char ' ' :: .char '=' ::
        (valueTokens attr.2 ++ .char '\n' :: tokens t) := by
  have start (s : Text) :
      tokens ('\t' :: (attr.1 ++ ' ' :: '=' :: s)) =
        .char '\t' :: .identifier attr.1 :: .char ' ' :: .char '=' :: tokens s := by
    rw [tokens_cons _ (by decide), tokens_append _ _ (by decide), tokens_identifier word, tokens_cons _ (by decide)]
    rfl
  by_cases empty : attr.2 = []
  · have line : foreachAttrAppend attr ++ t = '\t' :: (attr.1 ++ ' ' :: '=' :: '\n' :: t) := by
      simp [foreachAttrAppend, empty]
    rw [line, start, tokens_cons _ (by decide), valueTokens, if_pos empty]
    rfl
  · have single : attr.2.splitOn '\n' = [attr.2] :=
      List.splitOn_eq_singleton fun mem => plain.ne_newline mem rfl
    have line : foreachAttrAppend attr ++ t = '\t' :: (attr.1 ++ ' ' :: '=' :: ' ' :: (attr.2 ++ '\n' :: t)) := by
      simp [foreachAttrAppend, empty, single]
    rw [line, start, tokens_cons _ (by decide), tokens_append _ _ (by decide), valueTokens, if_neg empty]
    rfl

theorem parseAttrValue_valueTokens {value : Text} (plain : Plain value) (rest : List Token) :
    parseAttrValue .id false [] (.char ' ' :: .char '=' :: (valueTokens value ++ .char '\n' :: rest)) =
      (some value, rest) := by
  have sign (after : List Token) :
      parseAttrValue .id false [] (.char ' ' :: .char '=' :: after) = parseAttrValue .equal false [] after := by
    simp [parseAttrValue, attrChar, isScanWhitespace]
  rw [sign]
  by_cases empty : value = []
  · simp [valueTokens, empty, parseAttrValue]
  · rw [valueTokens, if_neg empty, List.cons_append]
    simpa [parseAttrValue, attrChar, isScanWhitespace] using parseAttrValue_plain plain empty rest

theorem parseBase_attr {cf : JConfig} {error : Bool} {attr : Text × Text}
    (word : Identifier attr.1) (plain : Plain attr.2) (t : Text) :
    parseBase ⟨cf, some stanza_name, error⟩ (tokens (foreachAttrAppend attr ++ t)) =
      parseBase ⟨setLastAttribute cf stanza_name attr.1 attr.2, some stanza_name, error⟩ (tokens t) := by
  rw [tokens_foreachAttrAppend word plain, parseBase]
  simp [parseLine, isScanWhitespace, parseWhiteStart, parseStanzaAttr, parseAttrValue_valueTokens plain]

theorem parseBase_attrs {error : Bool} {attrs : JConfigStanza}
    (printable : ∀ attr ∈ attrs, Identifier attr.1 ∧ Plain attr.2) (cf : JConfig) (t : Text) :
    parseBase ⟨cf, some stanza_name, error⟩ (tokens (attrs.flatMap foreachAttrAppend ++ t)) =
      parseBase ⟨attrs.foldl (fun cf attr => setLastAttribute cf stanza_name attr.1 attr.2) cf, some stanza_name,
        error⟩ (tokens t) := by
  induction attrs generalizing cf with
  | nil => rfl
  | cons attr attrs ih =>
    obtain ⟨word, plain⟩ := printable attr (by simp)
    rw [List.flatMap_cons, List.append_assoc, parseBase_attr word plain,
      ih fun other mem => printable other (by simp [mem])]
    rfl

theorem parseBase_stanza (word : Identifier stanza_name) {attrs : JConfigStanza}
    (printable : ∀ attr ∈ attrs, Identifier attr.1 ∧ Plain attr.2) (cf : JConfig) (error : Bool) (t : Text) :
    parseBase ⟨cf, none, error⟩ (tokens (foreachStanzaAppend stanza_name attrs ++ t)) =
      parseBase ⟨storeStanza cf stanza_name attrs, none, error⟩ (tokens t) := by
  have text : foreachStanzaAppend stanza_name attrs ++ t =
      stanza_name ++ ':' :: '\n' :: (attrs.flatMap foreachAttrAppend ++ '\n' :: t) := by
    simp [foreachStanzaAppend]
  have title (rest : List Token) :
      parseBase ⟨cf, none, error⟩ (.identifier stanza_name :: .char ':' :: .char '\n' :: rest) =
        parseBase ⟨addStanza cf stanza_name, some stanza_name, error⟩ rest := by
    rw [parseBase]
    simp [parseLine, parseStanzaName, parseStanzaNameEnd]
  have blank (cf : JConfig) (rest : List Token) :
      parseBase ⟨cf, some stanza_name, error⟩ (.char '\n' :: rest) = parseBase ⟨cf, none, error⟩ rest := by
    rw [parseBase]
    simp [parseLine, isScanWhitespace, JConfigCtxt.close]
  rw [text, tokens_append _ _ (by decide), tokens_identifier word, tokens_cons _ (by decide), List.singleton_append,
    title, parseBase_attrs printable, tokens_cons _ (by decide), blank, storeStanza]

def entries (cf : JConfig) : List (Text × JConfigStanza) :=
  cf.flatMap fun elem => elem.2.map fun cfs => (elem.1, cfs)

theorem dumpMemory_eq_entries (cf : JConfig) :
    dumpMemory cf = (entries cf).flatMap fun entry => foreachStanzaAppend entry.1 entry.2 := by
  rw [dumpMemory, entries, List.flatMap_assoc]
  simp only [List.flatMap_map]

def Printable (entry : Text × JConfigStanza) : Prop :=
  Identifier entry.1 ∧ ∀ attr ∈ entry.2, Identifier attr.1 ∧ Plain attr.2

instance (entry : Text × JConfigStanza) : Decidable (Printable entry) :=
  inferInstanceAs (Decidable (Identifier entry.1 ∧ ∀ attr ∈ entry.2, Identifier attr.1 ∧ Plain attr.2))

theorem parseBase_entries {listed : List (Text × JConfigStanza)} (printable : ∀ entry ∈ listed, Printable entry)
    (cf : JConfig) :
    parseBase ⟨cf, none, false⟩ (tokens (listed.flatMap fun entry => foreachStanzaAppend entry.1 entry.2)) =
      ⟨listed.foldl (fun cf entry => storeStanza cf entry.1 entry.2) cf, none, false⟩ := by
  induction listed generalizing cf with
  | nil => simp [tokens, parseBase]
  | cons entry listed ih =>
    obtain ⟨word, attrs⟩ := printable entry (by simp)
    rw [List.flatMap_cons, parseBase_stanza word attrs, ih fun other mem => printable other (by simp [mem])]
    rfl

theorem parseFile_dumpMemory {cf : JConfig} (printable : ∀ entry ∈ entries cf, Printable entry) :
    parseFile (dumpMemory cf) =
      some ((entries cf).foldl (fun cf entry => storeStanza cf entry.1 entry.2) []) := by
  rw [parseFile, dumpMemory_eq_entries, parseBase_entries printable]
  rfl

end Ocfs2.O2cb
