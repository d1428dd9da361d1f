import Ocfs2.Shared.AssocTable
import Mathlib.Data.List.DropRight

set_option autoImplicit false

/-!
A file is a list of stanzas, and a stanza is a list of attributes. A character of the text is a byte. A table of
hashes is the list of its entries in the order in which it is walked.
-/

namespace Ocfs2.O2cb

abbrev Text := List Char

inductive Token
  | identifier (name : Text)
  | char (c : Char)
  deriving DecidableEq

def isIdentifierChar (c : Char) : Bool := c.isAlphanum || c == '_'

def tokens : Text → List Token
  | [] => []
  | c :: text =>
    if isIdentifierChar c then
      match tokens text with
      | .identifier name :: rest => .identifier (c :: name) :: rest
      | rest => .identifier [c] :: rest
    else .char c :: tokens text

def isScanWhitespace (c : Char) : Bool := c == ' ' || c == '\t' || c == '\x00'

abbrev JConfigStanza := List (Text × Text)

abbrev JConfig := List (Text × List JConfigStanza)

structure JConfigCtxt where
  cf : JConfig
  cfs : Option Text
  error : Bool
  deriving DecidableEq

def JConfigCtxt.fail (ctxt : JConfigCtxt) : JConfigCtxt := { ctxt with error := true }

def JConfigCtxt.close (ctxt : JConfigCtxt) : JConfigCtxt := { ctxt with cfs := none }

def addStanza (cf : JConfig) (stanza_name : Text) : JConfig :=
  match cf.lookup stanza_name with
  | none => cf ++ [(stanza_name, [[]])]
  | some _ => AssocTable.modify cf stanza_name fun elem => elem ++ [[]]

def setAttribute (cfs : JConfigStanza) (attr_name attr_value : Text) : JConfigStanza :=
  AssocTable.set cfs attr_name attr_value

def setLastAttribute (cf : JConfig) (stanza_name attr_name attr_value : Text) : JConfig :=
  AssocTable.modify cf stanza_name fun elem =>
    elem.modifyLast fun cfs => setAttribute cfs attr_name attr_value

def parseToEol : List Token → List Token
  | [] => []
  | .char c :: rest => if c = '\n' then rest else parseToEol rest
  | .identifier _ :: rest => parseToEol rest

def parseStanzaNameEnd : List Token → Bool × List Token
  | [] => (true, [])
  | .char c :: rest =>
    if c = '\n' then (true, rest)
    else if isScanWhitespace c then parseStanzaNameEnd rest
    else (false, parseToEol rest)
  | .identifier _ :: rest => (false, parseToEol rest)

def parseStanzaName (ctxt : JConfigCtxt) (stanza_name : Text) : List Token → JConfigCtxt × List Token
  | [] => (ctxt.close.fail, [])
  | .identifier _ :: rest => (ctxt.close.fail, parseToEol rest)
  | .char c :: rest =>
    if c = '\n' then (ctxt.close.fail, rest)
    else if c ≠ ':' then (ctxt.close.fail, parseToEol rest)
    else
      match parseStanzaNameEnd rest with
      | (false, rest) => (ctxt.close.fail, rest)
      | (true, rest) => ({ ctxt with cf := addStanza ctxt.cf stanza_name, cfs := some stanza_name }, rest)

inductive AttrState
  | id
  | equal
  | value
  deriving DecidableEq

def attrChar (c : Char) : AttrState → Text → Option (AttrState × Bool × Text)
  | .id, attr_value =>
    if c = '=' then some (.equal, false, attr_value)
    else if isScanWhitespace c then some (.id, false, attr_value)
    else none
  | .equal, attr_value =>
    if isScanWhitespace c then some (.equal, false, attr_value)
    else if c = '\\' then some (.value, true, attr_value)
    else some (.value, false, attr_value ++ [c])
  | .value, attr_value =>
    if c = '\\' then some (.value, true, attr_value) else some (.value, false, attr_value ++ [c])

def parseAttrValue : AttrState → Bool → Text → List Token → Option Text × List Token
  | cur_state, _, attr_value, [] => (if cur_state = .id then none else some attr_value, [])
  | cur_state, multi_line, attr_value, .char c :: rest =>
    if c = '\n' then
      if cur_state = .id then (none, rest)
      else if multi_line then parseAttrValue cur_state false (attr_value ++ ['\n']) rest
      else (some attr_value, rest)
    else if multi_line then
      if c = '\\' then parseAttrValue cur_state true (attr_value ++ ['\\']) rest
      else parseAttrValue cur_state false (attr_value ++ ['\\', c]) rest
    else
      match attrChar c cur_state attr_value with
      | none => (none, parseToEol rest)
      | some (cur_state, multi_line, attr_value) => parseAttrValue cur_state multi_line attr_value rest
  | cur_state, multi_line, attr_value, .identifier name :: rest =>
    if cur_state = .id then (none, parseToEol rest)
    else parseAttrValue .value false (attr_value ++ (if multi_line then ['\\'] else []) ++ name) rest

def parseStanzaAttr (ctxt : JConfigCtxt) (attr_name : Text) (rest : List Token) : JConfigCtxt × List Token :=
  match ctxt.cfs with
  | none => (ctxt.fail, parseToEol rest)
  | some stanza_name =>
    match parseAttrValue .id false [] rest with
    | (none, rest) => (ctxt.fail, rest)
    | (some attr_value, rest) =>
      ({ ctxt with cf := setLastAttribute ctxt.cf stanza_name attr_name attr_value }, rest)

def parseWhiteStart (ctxt : JConfigCtxt) : List Token → JConfigCtxt × List Token
  | [] => (ctxt, [])
  | .identifier attr_name :: rest => parseStanzaAttr ctxt attr_name rest
  | .char c :: rest =>
    if c = '\n' then (ctxt.close, rest)
    else if isScanWhitespace c then parseWhiteStart ctxt rest
    else (ctxt.fail, parseToEol rest)

def parseLine (ctxt : JConfigCtxt) : Token → List Token → JConfigCtxt × List Token
  | .identifier stanza_name, rest => parseStanzaName ctxt stanza_name rest
  | .char c, rest =>
    if isScanWhitespace c then parseWhiteStart ctxt rest
    else if c = '#' then (ctxt, parseToEol rest)
    else if c = '\n' then (ctxt.close, rest)
    else (ctxt.fail.close, parseToEol rest)

theorem parseToEol_length (rest : List Token) : (parseToEol rest).length ≤ rest.length := by
  fun_induction parseToEol rest with
  | case1 => simp
  | case2 => simp
  | case3 c rest _ ih | case4 name rest ih =>
    simp only [List.length_cons]
    omega

theorem parseStanzaNameEnd_length (rest : List Token) : (parseStanzaNameEnd rest).2.length ≤ rest.length := by
  fun_induction parseStanzaNameEnd rest with
  | case1 => simp
  | case2 => simp
  | case3 c rest _ _ ih => exact ih.trans (by simp)
  | case4 c rest _ _ | case5 name rest => exact (parseToEol_length rest).trans (by simp)

theorem parseAttrValue_length (cur_state : AttrState) (multi_line : Bool) (attr_value : Text) (rest : List Token) :
    (parseAttrValue cur_state multi_line attr_value rest).2.length ≤ rest.length := by
  have eol := parseToEol_length
  fun_induction parseAttrValue cur_state multi_line attr_value rest <;> grind

theorem parseStanzaName_length (ctxt : JConfigCtxt) (stanza_name : Text) (rest : List Token) :
    (parseStanzaName ctxt stanza_name rest).2.length ≤ rest.length := by
  have eol := parseToEol_length
  have nameEnd := parseStanzaNameEnd_length
  fun_cases parseStanzaName ctxt stanza_name rest <;> grind

theorem parseStanzaAttr_length (ctxt : JConfigCtxt) (attr_name : Text) (rest : List Token) :
    (parseStanzaAttr ctxt attr_name rest).2.length ≤ rest.length := by
  have eol := parseToEol_length
  have value := parseAttrValue_length
  fun_cases parseStanzaAttr ctxt attr_name rest <;> grind

theorem parseWhiteStart_length (ctxt : JConfigCtxt) (rest : List Token) :
    (parseWhiteStart ctxt rest).2.length ≤ rest.length := by
  have eol := parseToEol_length
  have attr := parseStanzaAttr_length
  fun_induction parseWhiteStart ctxt rest <;> grind

theorem parseLine_length (ctxt : JConfigCtxt) (token : Token) (rest : List Token) :
    (parseLine ctxt token rest).2.length ≤ rest.length := by
  have eol := parseToEol_length
  have white := parseWhiteStart_length
  have stanza := parseStanzaName_length
  fun_cases parseLine ctxt token rest <;> grind

def parseBase (ctxt : JConfigCtxt) : List Token → JConfigCtxt
  | [] => ctxt
  | token :: rest =>
    have := parseLine_length ctxt token rest
    parseBase (parseLine ctxt token rest).1 (parseLine ctxt token rest).2
termination_by rest => rest.length

def parseFile (text : Text) : Option JConfig :=
  let ctxt := parseBase ⟨[], none, false⟩ (tokens text)
  if ctxt.error then none else some ctxt.cf

def isAsciiSpace (c : Char) : Bool := c == ' ' || c == '\t' || c == '\n' || c == '\x0c' || c == '\r'

def getAttribute (cfs : JConfigStanza) (attr_name : Text) : Option Text :=
  (cfs.lookup attr_name).map fun s => s.rdropWhile isAsciiSpace

def getStanzas (cf : JConfig) (stanza_name : Text) : List JConfigStanza := (cf.lookup stanza_name).getD []

def getStanzasMatching (cf : JConfig) (stanza_name attr_name value : Text) : List JConfigStanza :=
  (getStanzas cf stanza_name).filter fun cfs => getAttribute cfs attr_name = some value

def foreachAttrAppend (attr : Text × Text) : Text :=
  if attr.2 = [] then "\t".toList ++ attr.1 ++ " =\n".toList
  else "\t".toList ++ attr.1 ++ " = ".toList ++ "\\\n".toList.intercalate (attr.2.splitOn '\n') ++ "\n".toList

def foreachStanzaAppend (stanza_name : Text) (cfs : JConfigStanza) : Text :=
  stanza_name ++ ":\n".toList ++ cfs.flatMap foreachAttrAppend ++ "\n".toList

def dumpMemory (cf : JConfig) : Text :=
  cf.flatMap fun elem => elem.2.flatMap (foreachStanzaAppend elem.1)

def Walks (cf walked : JConfig) : Prop :=
  ∃ order, order.Perm cf ∧
    List.Forall₂ (fun elem other => elem.1 = other.1 ∧ List.Forall₂ List.Perm elem.2 other.2) order walked

end Ocfs2.O2cb
