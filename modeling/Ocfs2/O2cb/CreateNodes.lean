import Ocfs2.O2cb.Config

set_option autoImplicit false

namespace Ocfs2.O2cb

structure CreateArgs where
  name : Text
  cluster : Option Text
  ip_address : Option Text
  ip_port : Option Text
  number : Option Text

inductive CreateError
  | required (attr : String)
  | noCluster
  | nodeExists
  | invalidAddress
  | invalidPort
  | invalidNumber
  | numberExists
  | notRunning
  deriving DecidableEq

def strtol (s : Text) : Int × Text :=
  let (negative, unsigned) := strtoulSign (s.dropWhile isspace)
  if unsigned.takeWhile Char.isDigit = [] then (0, s)
  else
    let (val, ptr) := strtoulDigits unsigned
    (if negative then max (-val) (-2 ^ 63) else min val (2 ^ 63 - 1), ptr)

def numberUpTo (limit : Nat) (s : Text) (e : CreateError) : Except CreateError UInt32 :=
  let (num, ptr) := strtol s
  if ptr ≠ [] ∨ num < 0 ∨ num > limit then .error e else .ok (UInt32.ofNat num.toNat)

def requiredAttr (attr : String) : Option Text → Except CreateError Text
  | none => .error (.required attr)
  | some [] => .error (.required attr)
  | some s => .ok s

/-- The node is in the list, with the count for its number, when an explicit number is looked up. -/
def chooseNumber (cluster : Cluster) (number : Option Text) : Except CreateError UInt32 := do
  match number with
  | none => return cluster.c_num_nodes
  | some number =>
    let num ← numberUpTo INT_MAX number .invalidNumber
    if cluster.c_nodes.any fun node => node.n_number = num then .error .numberExists else return num

def createNode (args : CreateArgs) (ip_address ip_port : Text) (running : Bool) (cluster : Cluster) :
    Except CreateError Cluster := do
  if cluster.c_nodes.any fun node => node.n_name = args.name then .error .nodeExists
  else if !inetPton ip_address then .error .invalidAddress
  else
    let port ← numberUpTo (2 ^ 16 - 1) ip_port .invalidPort
    let number ← chooseNumber cluster args.number
    if !running then .error .notRunning
    else return clusterAddNode cluster ⟨number, args.name, ip_address, port⟩

def changeCluster (name : Text) (change : Cluster → Except CreateError Cluster) :
    List Cluster → Except CreateError (List Cluster)
  | [] => .error .noCluster
  | cluster :: rest => do
    if cluster.c_name = name then return (← change cluster) :: rest
    else return cluster :: (← changeCluster name change rest)

def runCreateNodes (config : Config) (request : CreateArgs × Bool) : Except CreateError Config := do
  let cluster_name ← requiredAttr "cluster" request.1.cluster
  let ip_address ← requiredAttr "ip_address" request.1.ip_address
  let ip_port ← requiredAttr "ip_port" request.1.ip_port
  let clusters ← changeCluster cluster_name (createNode request.1 ip_address ip_port request.2) config.co_clusters
  return ⟨clusters⟩

def Cluster.Distinct (cluster : Cluster) : Prop := (cluster.c_nodes.map Node.n_number).Nodup

def Config.Distinct (config : Config) : Prop := ∀ cluster ∈ config.co_clusters, cluster.Distinct

def CountFree (config : Config) (args : CreateArgs) : Prop :=
  args.number = none → ∀ cluster, config.co_clusters.find? (some ·.c_name = args.cluster) = some cluster →
    cluster.c_num_nodes ∉ cluster.c_nodes.map Node.n_number

def CountsFree : Config → List (CreateArgs × Bool) → Prop
  | _, [] => True
  | config, request :: rest => CountFree config request.1 ∧
    ∀ config', runCreateNodes config request = .ok config' → CountsFree config' rest

theorem bind_eq_ok {ε α β : Type} {x : Except ε α} {f : α → Except ε β} {b : β} :
    x >>= f = .ok b ↔ ∃ a, x = .ok a ∧ f a = .ok b := by
  cases x <;> simp [bind, Except.bind]

theorem chooseNumber_fresh {cluster : Cluster} {number : Option Text} {num : UInt32}
    (run : chooseNumber cluster number = .ok num) : num ∉ cluster.c_nodes.map Node.n_number ↔
      (number = none → cluster.c_num_nodes ∉ cluster.c_nodes.map Node.n_number) := by
  cases number with
  | none =>
    obtain rfl := Except.ok.inj run
    simp
  | some number =>
    obtain ⟨n, -, rest⟩ := bind_eq_ok.mp run
    split_ifs at rest with used
    obtain rfl := Except.ok.inj rest
    simpa using used

theorem createNode_distinct {args : CreateArgs} {ip_address ip_port : Text} {running : Bool}
    {cluster cluster' : Cluster} (run : createNode args ip_address ip_port running cluster = .ok cluster') :
    cluster'.Distinct ↔ cluster.Distinct ∧
      (args.number = none → cluster.c_num_nodes ∉ cluster.c_nodes.map Node.n_number) := by
  rw [createNode] at run
  split_ifs at run
  · obtain ⟨_, -, run⟩ := bind_eq_ok.mp run
    obtain ⟨_, -, ⟨⟩⟩ := bind_eq_ok.mp run
  · obtain ⟨port, -, run⟩ := bind_eq_ok.mp run
    obtain ⟨num, chosen, run⟩ := bind_eq_ok.mp run
    obtain rfl := Except.ok.inj run
    rw [← chooseNumber_fresh chosen, Cluster.Distinct, clusterAddNode, List.map_append, List.map_singleton,
      ← List.concat_eq_append, List.nodup_concat, and_comm]
    rfl

theorem changeCluster_distinct {name : Text} {change : Cluster → Except CreateError Cluster} {Q : Cluster → Prop}
    (each : ∀ {c c'}, change c = .ok c' → (c'.Distinct ↔ c.Distinct ∧ Q c)) {clusters : List Cluster} :
    ∀ {clusters'}, changeCluster name change clusters = .ok clusters' →
      ((∀ c ∈ clusters', c.Distinct) ↔ (∀ c ∈ clusters, c.Distinct) ∧
        ∀ c, clusters.find? (·.c_name = name) = some c → Q c) := by
  induction clusters with
  | nil => exact fun run => nomatch run
  | cons c rest ih =>
    intro clusters' run
    rw [changeCluster] at run
    split_ifs at run with here
    · obtain ⟨c', changed, run⟩ := bind_eq_ok.mp run
      obtain rfl := Except.ok.inj run
      simp [here, each changed, and_right_comm]
    · obtain ⟨rest', changed, run⟩ := bind_eq_ok.mp run
      obtain rfl := Except.ok.inj run
      simp [here, ih changed, and_assoc]

theorem runCreateNodes_distinct {config config' : Config} {request : CreateArgs × Bool}
    (run : runCreateNodes config request = .ok config') :
    config'.Distinct ↔ config.Distinct ∧ CountFree config request.1 := by
  obtain ⟨name, named, run⟩ := bind_eq_ok.mp run
  obtain ⟨addr, -, run⟩ := bind_eq_ok.mp run
  obtain ⟨port, -, run⟩ := bind_eq_ok.mp run
  obtain ⟨clusters, changed, run⟩ := bind_eq_ok.mp run
  obtain rfl := Except.ok.inj run
  have same : request.1.cluster = some name := by
    revert named
    rcases request.1.cluster with _ | _ | _ <;> simp [requiredAttr]
  rw [Config.Distinct, changeCluster_distinct createNode_distinct changed, CountFree, same]
  simp only [Option.some.injEq]
  exact and_congr_right fun _ =>
    ⟨fun free none c found => free c found none, fun free c found none => free none c found⟩

/-- The numbers of the nodes stay distinct exactly where no node gets a number by a count that a node has already.
An explicit number is always a new one. -/
theorem created_numbers_distinct_iff {config config' : Config} {requests : List (CreateArgs × Bool)}
    (distinct : config.Distinct) (run : requests.foldlM runCreateNodes config = .ok config') :
    config'.Distinct ↔ CountsFree config requests := by
  suffices general : ∀ requests config, requests.foldlM runCreateNodes config = .ok config' →
      (config'.Distinct ↔ config.Distinct ∧ CountsFree config requests) by
    rw [general requests config run, and_iff_right distinct]
  intro requests
  induction requests with
  | nil =>
    intro config run
    obtain rfl := Except.ok.inj run
    simp [CountsFree]
  | cons request rest ih =>
    intro config run
    obtain ⟨next, first, run⟩ := bind_eq_ok.mp run
    rw [ih next run, runCreateNodes_distinct first, CountsFree, and_assoc]
    simp [first]

def newNode (name : Text) (number : Option Text) : CreateArgs × Bool :=
  (⟨name, some ['c'], some "10.0.0.1".toList, some "7777".toList, number⟩, true)

def emptyCluster : Config := ⟨[⟨['c'], 0, []⟩]⟩

def twoNodes (m n : UInt32) : Config :=
  ⟨[⟨['c'], 2, [⟨m, ['a'], "10.0.0.1".toList, 7777⟩, ⟨n, ['b'], "10.0.0.1".toList, 7777⟩]⟩]⟩

theorem emptyCluster_distinct : emptyCluster.Distinct := by simp [Config.Distinct, emptyCluster, Cluster.Distinct]

theorem counts_free_two : CountsFree emptyCluster [newNode ['a'] none, newNode ['b'] none] := by
  have run : [newNode ['a'] none, newNode ['b'] none].foldlM runCreateNodes emptyCluster = .ok (twoNodes 0 1) := by
    decide +kernel
  exact (created_numbers_distinct_iff emptyCluster_distinct run).mp
    (by simp [Config.Distinct, twoNodes, Cluster.Distinct])

/-- After a node with the number one, the next one without a number is given one as well. -/
theorem count_given_twice :
    emptyCluster.Distinct ∧
    [newNode ['a'] (some ['1']), newNode ['b'] none].foldlM runCreateNodes emptyCluster = .ok (twoNodes 1 1) ∧
    ¬ (twoNodes 1 1).Distinct :=
  ⟨emptyCluster_distinct, by decide +kernel, by simp [Config.Distinct, twoNodes, Cluster.Distinct]⟩

end Ocfs2.O2cb
