import Ocfs2.O2cb.JConfig

set_option autoImplicit false

/-!
A `long` has 64 bits. Where a null pointer is read the error is undefined.
-/

namespace Ocfs2.O2cb

structure Node where
  n_number : UInt32
  n_name : Text
  n_addr : Text
  n_port : UInt32
  deriving DecidableEq

structure Cluster where
  c_name : Text
  c_num_nodes : UInt32
  c_nodes : List Node
  deriving DecidableEq

structure Config where
  co_clusters : List Cluster
  deriving DecidableEq

inductive Errno
  | ENOENT
  | eio
  | ENOMEM
  | EINVAL
  | ERANGE
  | undefined
  deriving DecidableEq

def ULONG_MAX : Nat := 2 ^ 64 - 1

def UINT_MAX : Nat := 2 ^ 32 - 1

def INT_MAX : Nat := 2 ^ 31 - 1

def isspace (c : Char) : Bool := c == ' ' || (9 ≤ c.toNat && c.toNat ≤ 13)

def strtoulDigits (s : Text) : Nat × Text :=
  (min (Nat.ofDigitChars 10 (s.takeWhile Char.isDigit) 0) ULONG_MAX, s.dropWhile Char.isDigit)

def strtoulSign : Text → Bool × Text
  | [] => (false, [])
  | c :: s => if c = '-' then (true, s) else if c = '+' then (false, s) else (false, c :: s)

def strtoul (s : Text) : Nat × Text :=
  let (negative, unsigned) := strtoulSign (s.dropWhile isspace)
  if unsigned.takeWhile Char.isDigit = [] then (0, s)
  else
    let (val, ptr) := strtoulDigits unsigned
    (if negative ∧ val < ULONG_MAX then (2 ^ 64 - val) % 2 ^ 64 else val, ptr)

def inetPtonLoop : Nat → Option Nat → Text → Bool
  | octets, _, [] => octets = 4
  | octets, current, c :: src =>
    if c.isDigit then
      match current with
      | none => if octets = 4 then false else inetPtonLoop (octets + 1) (some (c.toNat - '0'.toNat)) src
      | some value =>
        if value = 0 then false
        else if value * 10 + (c.toNat - '0'.toNat) > 255 then false
        else inetPtonLoop octets (some (value * 10 + (c.toNat - '0'.toNat))) src
    else if c = '.' ∧ current.isSome then
      if octets = 4 then false else inetPtonLoop octets none src
    else false

def inetPton (src : Text) : Bool := inetPtonLoop 0 none src

def getAttributeOr (cfs : JConfigStanza) (attr_name : Text) (rc : Errno) : Except Errno Text :=
  match getAttribute cfs attr_name with
  | none => .error rc
  | some [] => .error rc
  | some s => .ok s

def getNumber (cfs : JConfigStanza) (attr_name : Text) (limit : Nat) : Except Errno Nat := do
  let s ← getAttributeOr cfs attr_name .EINVAL
  let (val, ptr) := strtoul s
  if ptr ≠ [] then .error .EINVAL
  else if val = ULONG_MAX ∨ val ≥ limit then .error .ERANGE
  else return val

def clusterAddNode (cluster : Cluster) (node : Node) : Cluster :=
  { cluster with c_nodes := cluster.c_nodes ++ [node], c_num_nodes := cluster.c_num_nodes + 1 }

def nodeSetIpString (addr : Text) : Except Errno Text :=
  if inetPton addr then .ok addr else .error .EINVAL

def clusterFillNode (cluster : Cluster) (cfs : JConfigStanza) : Except Errno Cluster := do
  let name ← getAttributeOr cfs "name".toList .EINVAL
  if cluster.c_nodes.any fun node => node.n_name = name then .error .ENOMEM
  else
    let number ← getNumber cfs "number".toList INT_MAX
    let addr ← getAttributeOr cfs "ip_address".toList .EINVAL
    let addr ← nodeSetIpString addr
    let port ← getNumber cfs "ip_port".toList (UINT_MAX + 1)
    return clusterAddNode cluster ⟨UInt32.ofNat number, name, addr, UInt32.ofNat port⟩

def configFillCluster (cf : JConfig) (config : Config) (c_cfs : JConfigStanza) : Except Errno Config := do
  match getAttribute c_cfs "name".toList with
  | none => .error .undefined
  | some name =>
    if config.co_clusters.any fun cluster => cluster.c_name = name then .error .ENOENT
    else
      let cluster ← (getStanzasMatching cf "node".toList "cluster".toList name).foldlM clusterFillNode ⟨name, 0, []⟩
      let val ← getNumber c_cfs "node_count".toList (UINT_MAX + 1)
      return ⟨config.co_clusters ++ [{ cluster with c_num_nodes := UInt32.ofNat val }]⟩

def configFill (cf : JConfig) : Except Errno Config :=
  (getStanzas cf "cluster".toList).foldlM (configFillCluster cf) ⟨[]⟩

def configLoad : Option Text → Except Errno Config
  | none =>
    match parseFile [] with
    | none => .error .ENOMEM
    | some cf => configFill cf
  | some text =>
    match parseFile text with
    | none => .error .eio
    | some cf => configFill cf

def printUnsigned (value : UInt32) : Text := Nat.toDigits 10 value.toNat

def storeStanza (cf : JConfig) (stanza_name : Text) (attrs : List (Text × Text)) : JConfig :=
  attrs.foldl (fun cf attr => setLastAttribute cf stanza_name attr.1 attr.2) (addStanza cf stanza_name)

def nodeAttrs (cluster : Cluster) (node : Node) : List (Text × Text) :=
  [("cluster".toList, cluster.c_name), ("name".toList, node.n_name), ("ip_address".toList, node.n_addr),
    ("ip_port".toList, printUnsigned node.n_port), ("number".toList, printUnsigned node.n_number)]

def clusterAttrs (cluster : Cluster) : List (Text × Text) :=
  [("name".toList, cluster.c_name), ("node_count".toList, printUnsigned cluster.c_num_nodes)]

def nodeStore (cluster : Cluster) (cf : JConfig) (node : Node) : JConfig :=
  storeStanza cf "node".toList (nodeAttrs cluster node)

def clusterStore (cf : JConfig) (cluster : Cluster) : JConfig :=
  cluster.c_nodes.foldl (nodeStore cluster) (storeStanza cf "cluster".toList (clusterAttrs cluster))

def ConfigStore (config : Config) (text : Text) : Prop :=
  ∃ walked, Walks (config.co_clusters.foldl clusterStore []) walked ∧ text = dumpMemory walked

end Ocfs2.O2cb
