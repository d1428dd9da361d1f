import Ocfs2.O2cb.JConfigTable

set_option autoImplicit false

namespace Ocfs2.O2cb

open AssocTable

structure Node.Valid (node : Node) : Prop where
  name : Plain node.n_name
  addr : inetPton node.n_addr = true
  number : node.n_number.toNat < INT_MAX

structure Config.Valid (config : Config) : Prop where
  names : (config.co_clusters.map Cluster.c_name).Nodup
  plain : ∀ cluster ∈ config.co_clusters, Plain cluster.c_name
  nodeNames : ∀ cluster ∈ config.co_clusters, (cluster.c_nodes.map Node.n_name).Nodup
  nodes : ∀ cluster ∈ config.co_clusters, ∀ node ∈ cluster.c_nodes, node.Valid

theorem Plain.of_class {s : Text} (inside : ∀ c ∈ s, c.isDigit = true ∨ c = '.') : Plain s := by
  intro c mem
  rcases inside c mem with digit | rfl
  · have range : 48 ≤ c.toNat ∧ c.toNat ≤ 57 := by
      simpa [Char.isDigit, Char.le_def, UInt32.le_iff_toNat_le] using digit
    have other (d : Char) (outside : ¬ (48 ≤ d.toNat ∧ d.toNat ≤ 57)) : c ≠ d := fun same => outside (same ▸ range)
    simp only [isspace, isControl, Bool.or_eq_false_iff, beq_eq_false_iff_ne, Bool.and_eq_false_iff,
      decide_eq_false_iff_not]
    exact ⟨⟨other _ (by decide), by omega⟩, other _ (by decide), by omega⟩
  · decide

theorem inetPtonLoop_chars {octets : Nat} {current : Option Nat} {src : Text}
    (accepted : inetPtonLoop octets current src = true) : ∀ c ∈ src, c.isDigit = true ∨ c = '.' := by
  fun_induction inetPtonLoop octets current src <;> grind

variable {node : Node} {cfs : JConfigStanza} {cluster : Cluster}

theorem Node.Valid.plain_addr (valid : node.Valid) : Plain node.n_addr :=
  .of_class (inetPtonLoop_chars valid.addr)

theorem Node.Valid.addr_ne_nil (valid : node.Valid) : node.n_addr ≠ [] := by
  intro empty
  have := valid.addr
  rw [empty] at this
  exact absurd this (by decide)

theorem printUnsigned_digits (value : UInt32) : ∀ c ∈ printUnsigned value, c.isDigit = true :=
  fun _ mem => Nat.isDigit_of_mem_toDigits (by decide) (by decide) mem

theorem printUnsigned_plain (value : UInt32) : Plain (printUnsigned value) :=
  .of_class fun c mem => Or.inl (printUnsigned_digits value c mem)

theorem strtoul_printUnsigned (value : UInt32) : strtoul (printUnsigned value) = (value.toNat, []) := by
  have digits := printUnsigned_digits value
  have back : Nat.ofDigitChars 10 (printUnsigned value) 0 = value.toNat :=
    Nat.ofDigitChars_toDigits (by decide) (by decide)
  have filled : printUnsigned value ≠ [] := Nat.toDigits_ne_nil
  have plain := printUnsigned_plain value
  have small : value.toNat < 2 ^ 32 := value.toNat_lt
  cases printed : printUnsigned value with
  | nil => exact absurd printed filled
  | cons c s =>
    rw [printed] at digits back plain
    have taken : (c :: s).takeWhile Char.isDigit = c :: s := List.takeWhile_eq_self_iff.mpr digits
    have dropped : (c :: s).dropWhile Char.isDigit = [] := List.dropWhile_eq_nil_iff.mpr digits
    have start : (c :: s).dropWhile isspace = c :: s := by
      rw [List.dropWhile_cons, (plain c (by simp)).1]
      rfl
    have other (d : Char) (sign : d.isDigit = false) : c ≠ d := fun same => by simp [← same, digits c] at sign
    have sign : strtoulSign (c :: s) = (false, c :: s) := by
      rw [strtoulSign, if_neg (other '-' rfl), if_neg (other '+' rfl)]
    have bound : min value.toNat ULONG_MAX = value.toNat := by
      simp only [ULONG_MAX]
      omega
    simp only [strtoul, start, sign, strtoulDigits, taken, dropped, back, bound]
    simp

theorem getAttribute_of_perm {attrs : JConfigStanza} (distinct : (keys attrs).Nodup) (perm : attrs.Perm cfs)
    (attr_name : Text) {value : Text} (found : attrs.lookup attr_name = some value) (plain : Plain value) :
    getAttribute cfs attr_name = some value := by
  rw [getAttribute, lookup_perm distinct perm.symm, found, Option.map_some, List.rdropWhile_eq_self_iff.mpr]
  intro filled
  simp [plain.not_asciiSpace (List.getLast_mem filled)]

theorem getAttributeOr_some {attr_name value : Text}
    (found : getAttribute cfs attr_name = some value) (filled : value ≠ []) (rc : Errno) :
    getAttributeOr cfs attr_name rc = .ok value := by
  rw [getAttributeOr, found]
  cases value with
  | nil => exact absurd rfl filled
  | cons c s => rfl

theorem getNumber_printUnsigned {attr_name : Text} {value : UInt32}
    (found : getAttribute cfs attr_name = some (printUnsigned value)) {limit : Nat} (small : value.toNat < limit) :
    getNumber cfs attr_name limit = .ok value.toNat := by
  have width : value.toNat < 2 ^ 32 := value.toNat_lt
  have inside : ¬ (value.toNat = ULONG_MAX ∨ value.toNat ≥ limit) := by
    simp only [ULONG_MAX]
    omega
  simp only [getNumber, getAttributeOr_some found Nat.toDigits_ne_nil, bind, Except.bind, strtoul_printUnsigned,
    ne_eq, not_true_eq_false, if_false, if_neg inside, pure, Except.pure]

theorem keys_nodeAttrs_nodup (cluster : Cluster) (node : Node) : (keys (nodeAttrs cluster node)).Nodup := by
  simp [nodeAttrs]

theorem keys_clusterAttrs_nodup (cluster : Cluster) : (keys (clusterAttrs cluster)).Nodup := by
  simp [clusterAttrs]

theorem clusterFillNode_stored (valid : node.Valid) (filled : node.n_name ≠ []) (perm : (nodeAttrs cluster node).Perm cfs) {partialCluster : Cluster}
    (fresh : node.n_name ∉ partialCluster.c_nodes.map Node.n_name) :
    clusterFillNode partialCluster cfs = .ok (clusterAddNode partialCluster node) := by
  have distinct := keys_nodeAttrs_nodup cluster node
  have name := getAttribute_of_perm distinct perm "name".toList rfl valid.name
  have addr := getAttribute_of_perm distinct perm "ip_address".toList rfl valid.plain_addr
  have number := getAttribute_of_perm distinct perm "number".toList rfl (printUnsigned_plain node.n_number)
  have port := getAttribute_of_perm distinct perm "ip_port".toList rfl (printUnsigned_plain node.n_port)
  have unused : (partialCluster.c_nodes.any fun other => other.n_name = node.n_name) = false := by
    simp only [List.any_eq_false, decide_eq_true_eq]
    exact fun other mem same => fresh (same ▸ List.mem_map_of_mem mem)
  have portRange : node.n_port.toNat < UINT_MAX + 1 := node.n_port.toNat_lt
  simp only [clusterFillNode, getAttributeOr_some name filled, bind, Except.bind, unused,
    getNumber_printUnsigned number valid.number, getAttributeOr_some addr valid.addr_ne_nil, nodeSetIpString,
    valid.addr, getNumber_printUnsigned port portRange, pure, Except.pure]
  simp

theorem foldlM_clusterFillNode {nodes : List Node} {stanzas : List JConfigStanza}
    (stored : List.Forall₂ (fun node cfs => (nodeAttrs cluster node).Perm cfs) nodes stanzas)
    (valid : ∀ node ∈ nodes, node.Valid ∧ node.n_name ≠ []) (partialCluster : Cluster)
    (names : ((partialCluster.c_nodes ++ nodes).map Node.n_name).Nodup) :
    ∃ num_nodes, stanzas.foldlM clusterFillNode partialCluster =
      .ok ⟨partialCluster.c_name, num_nodes, partialCluster.c_nodes ++ nodes⟩ := by
  induction stored generalizing partialCluster with
  | nil => exact ⟨partialCluster.c_num_nodes, by simp [pure, Except.pure]⟩
  | @cons node cfs nodes stanzas perm _ ih =>
    obtain ⟨here, filled⟩ := valid node (by simp)
    have fresh : node.n_name ∉ partialCluster.c_nodes.map Node.n_name := by
      intro mem
      rw [List.map_append, List.nodup_append] at names
      exact names.2.2 _ mem _ (by simp) rfl
    obtain ⟨num_nodes, rest⟩ := ih (fun other mem => valid other (by simp [mem])) (clusterAddNode partialCluster node)
      (by simpa [clusterAddNode] using names)
    refine ⟨num_nodes, ?_⟩
    rw [List.foldlM_cons, clusterFillNode_stored here filled perm fresh]
    simpa [bind, Except.bind, clusterAddNode] using rest

def clusterNodes (clusters : List Cluster) : List (Cluster × Node) :=
  clusters.flatMap fun cluster => cluster.c_nodes.map fun node => (cluster, node)

theorem clusterNodes_filter {clusters : List Cluster} (names : (clusters.map Cluster.c_name).Nodup) (mem : cluster ∈ clusters) :
    (clusterNodes clusters).filter (fun pair => pair.1.c_name = cluster.c_name) =
      cluster.c_nodes.map fun node => (cluster, node) := by
  induction clusters with
  | nil => simp at mem
  | cons first clusters ih =>
    obtain ⟨fresh, rest⟩ := List.nodup_cons.mp names
    rw [clusterNodes, List.flatMap_cons, ← clusterNodes, List.filter_append, List.filter_map]
    rcases List.mem_cons.mp mem with rfl | mem
    · have others : (clusterNodes clusters).filter (fun pair => pair.1.c_name = cluster.c_name) = [] := by
        apply List.filter_eq_nil_iff.mpr
        intro pair inside
        obtain ⟨other, there, here⟩ := List.mem_flatMap.mp inside
        obtain ⟨node, -, rfl⟩ := List.mem_map.mp here
        have : other.c_name ≠ cluster.c_name := fun same => fresh (same ▸ List.mem_map_of_mem there)
        simpa using this
      rw [others]
      simp [Function.comp_def]
    · have other : first.c_name ≠ cluster.c_name := fun same => fresh (same ▸ List.mem_map_of_mem mem)
      rw [ih rest mem]
      simp [Function.comp_def, other]

abbrev NodesStored (clusters : List Cluster) (cf : JConfig) : Prop :=
  List.Forall₂ (fun pair cfs => (nodeAttrs pair.1 pair.2).Perm cfs) (clusterNodes clusters)
    (getStanzas cf "node".toList)

section

variable {clusters : List Cluster} {cf : JConfig} (valid : Config.Valid ⟨clusters⟩) (stored : NodesStored clusters cf)

include valid stored

theorem getStanzasMatching_stored (mem : cluster ∈ clusters) :
    List.Forall₂ (fun node cfs => (nodeAttrs cluster node).Perm cfs) cluster.c_nodes
      (getStanzasMatching cf "node".toList "cluster".toList cluster.c_name) := by
  have origin : ∀ pair ∈ clusterNodes clusters, Plain pair.1.c_name := by
    intro pair there
    obtain ⟨other, within, here⟩ := List.mem_flatMap.mp there
    obtain ⟨node, -, rfl⟩ := List.mem_map.mp here
    exact valid.plain other within
  have kept := List.rel_filter
    (p := fun pair : Cluster × Node => pair.1.c_name = cluster.c_name)
    (q := fun cfs => getAttribute cfs "cluster".toList = some cluster.c_name) (fun pair cfs here => by
      have := getAttribute_of_perm (keys_nodeAttrs_nodup pair.1 pair.2) here.2 "cluster".toList rfl here.1
      simp only [decide_eq_true_eq, this, Option.some.injEq]) ((List.forall₂_and_left _ _).mpr ⟨origin, stored⟩)
  rw [clusterNodes_filter valid.names mem, List.forall₂_map_left_iff] at kept
  exact kept.imp fun node cfs here => here.2

variable (filled : ∀ cluster ∈ clusters, ∀ node ∈ cluster.c_nodes, node.n_name ≠ [])

include filled

theorem configFillCluster_stored (mem : cluster ∈ clusters) {c_cfs : JConfigStanza}
    (perm : (clusterAttrs cluster).Perm c_cfs) {config : Config}
    (fresh : cluster.c_name ∉ config.co_clusters.map Cluster.c_name) :
    configFillCluster cf config c_cfs = .ok ⟨config.co_clusters ++ [cluster]⟩ := by
  have name := getAttribute_of_perm (keys_clusterAttrs_nodup cluster) perm "name".toList rfl
    (valid.plain cluster mem)
  have count := getAttribute_of_perm (keys_clusterAttrs_nodup cluster) perm "node_count".toList rfl
    (printUnsigned_plain cluster.c_num_nodes)
  have unused : (config.co_clusters.any fun other => other.c_name = cluster.c_name) = false := by
    simp only [List.any_eq_false, decide_eq_true_eq]
    exact fun other mem same => fresh (same ▸ List.mem_map_of_mem mem)
  have countRange : cluster.c_num_nodes.toNat < UINT_MAX + 1 := cluster.c_num_nodes.toNat_lt
  obtain ⟨num_nodes, nodes⟩ := foldlM_clusterFillNode
    (getStanzasMatching_stored valid stored mem)
    (fun node inside => ⟨valid.nodes cluster mem node inside, filled cluster mem node inside⟩)
    ⟨cluster.c_name, 0, []⟩ (valid.nodeNames cluster mem)
  simp only [configFillCluster, name, unused, nodes, bind, Except.bind, getNumber_printUnsigned count countRange, pure,
    Except.pure]
  simp

theorem foldlM_configFillCluster {rest : List Cluster} {stanzas : List JConfigStanza}
    (listed : List.Forall₂ (fun cluster cfs => (clusterAttrs cluster).Perm cfs) rest stanzas) (done : List Cluster)
    (all : clusters = done ++ rest) :
    stanzas.foldlM (configFillCluster cf) ⟨done⟩ = .ok ⟨clusters⟩ := by
  induction listed generalizing done with
  | nil => simp [all, pure, Except.pure]
  | @cons cluster c_cfs rest stanzas perm _ ih =>
    have fresh : cluster.c_name ∉ done.map Cluster.c_name := by
      intro mem
      have names := valid.names
      simp only [all, List.map_append, List.nodup_append] at names
      exact names.2.2 _ mem _ (by simp) rfl
    rw [List.foldlM_cons, configFillCluster_stored valid stored filled (by simp [all]) perm fresh]
    exact ih (done ++ [cluster]) (by simp [all])

end

def storedEntries (clusters : List Cluster) : List (Text × JConfigStanza) :=
  clusters.flatMap fun cluster =>
    ("cluster".toList, clusterAttrs cluster) ::
      cluster.c_nodes.map fun node => ("node".toList, nodeAttrs cluster node)

theorem foldl_clusterStore (clusters : List Cluster) (cf : JConfig) :
    clusters.foldl clusterStore cf = storeAll (storedEntries clusters) cf := by
  rw [storeAll, storedEntries, List.foldl_flatMap]
  congr 1
  funext cf cluster
  rw [clusterStore, List.foldl_cons, List.foldl_map]
  rfl

theorem named_cluster (clusters : List Cluster) :
    named (storedEntries clusters) "cluster".toList = clusters.map clusterAttrs := by
  induction clusters with
  | nil => rfl
  | cons cluster clusters ih =>
    rw [named, storedEntries] at ih ⊢
    simp [List.filter_append, List.filter_map, Function.comp_def] at ih ⊢
    exact ih

theorem named_node (clusters : List Cluster) :
    named (storedEntries clusters) "node".toList =
      (clusterNodes clusters).map fun pair => nodeAttrs pair.1 pair.2 := by
  induction clusters with
  | nil => rfl
  | cons cluster clusters ih =>
    rw [named, storedEntries, clusterNodes] at ih ⊢
    simp [List.filter_append, List.filter_map, Function.comp_def] at ih ⊢
    exact ih

theorem storedEntries_printable {clusters : List Cluster} (valid : Config.Valid ⟨clusters⟩) :
    ∀ entry ∈ storedEntries clusters, Printable entry ∧ (keys entry.2).Nodup := by
  intro entry mem
  obtain ⟨cluster, there, here⟩ := List.mem_flatMap.mp mem
  have name := valid.plain cluster there
  rcases List.mem_cons.mp here with rfl | here
  · refine ⟨⟨show Identifier "cluster".toList by decide, ?_⟩, keys_clusterAttrs_nodup cluster⟩
    simp only [clusterAttrs, List.forall_mem_cons]
    exact ⟨⟨by decide, name⟩, ⟨by decide, printUnsigned_plain _⟩, by simp⟩
  · obtain ⟨node, inside, rfl⟩ := List.mem_map.mp here
    have node_valid := valid.nodes cluster there node inside
    refine ⟨⟨show Identifier "node".toList by decide, ?_⟩, keys_nodeAttrs_nodup cluster node⟩
    simp only [nodeAttrs, List.forall_mem_cons]
    exact ⟨⟨by decide, name⟩, ⟨by decide, node_valid.name⟩, ⟨by decide, node_valid.plain_addr⟩,
      ⟨by decide, printUnsigned_plain _⟩, ⟨by decide, printUnsigned_plain _⟩, by simp⟩

theorem parseFile_stored {config : Config} (valid : config.Valid) {text : Text} (stored : ConfigStore config text) :
    ∃ cf, parseFile text = some cf ∧
      List.Forall₂ (fun cluster cfs => (clusterAttrs cluster).Perm cfs) config.co_clusters
        (getStanzas cf "cluster".toList) ∧ NodesStored config.co_clusters cf := by
  obtain ⟨walked, walks, rfl⟩ := stored
  rw [foldl_clusterStore] at walks
  obtain ⟨cf, parsed, same⟩ := parseFile_storeAll (storedEntries_printable valid) walks
  refine ⟨cf, parsed, ?_, ?_⟩
  · have clusters := same "cluster".toList
    rwa [named_cluster, List.forall₂_map_left_iff] at clusters
  · have nodes := same "node".toList
    rwa [named_node, List.forall₂_map_left_iff] at nodes

theorem configLoad_configStore (config : Config) (valid : config.Valid)
    (filled : ∀ cluster ∈ config.co_clusters, ∀ node ∈ cluster.c_nodes, node.n_name ≠ []) (text : Text)
    (stored : ConfigStore config text) : configLoad (some text) = .ok config := by
  obtain ⟨cf, parsed, clusters, nodes⟩ := parseFile_stored valid stored
  rw [configLoad, parsed]
  exact foldlM_configFillCluster valid nodes filled clusters [] rfl

theorem walks_reverse (cf : JConfig) :
    Walks cf (cf.reverse.map fun elem => (elem.1, elem.2.map List.reverse)) := by
  refine ⟨cf.reverse, cf.reverse_perm, ?_⟩
  rw [List.forall₂_map_right_iff, List.forall₂_same]
  refine fun elem _ => ⟨rfl, ?_⟩
  rw [List.forall₂_map_right_iff, List.forall₂_same]
  exact fun cfs _ => cfs.reverse_perm.symm

def singleNode (n_name : Text) : Config :=
  ⟨[⟨"ocfs2".toList, 1, [⟨0, n_name, "10.0.0.1".toList, 7777⟩]⟩]⟩

theorem singleNode_valid {n_name : Text} (plain : Plain n_name) : (singleNode n_name).Valid where
  names := by simp [singleNode]
  plain := by
    simp only [singleNode, List.forall_mem_singleton]
    decide
  nodeNames := by simp [singleNode]
  nodes := by
    simp only [singleNode, List.forall_mem_singleton]
    exact ⟨plain, show inetPton "10.0.0.1".toList = true by decide, show (0 : UInt32).toNat < INT_MAX by decide⟩

theorem configLoad_configStore_singleNode :
    ∃ text, ConfigStore (singleNode "node1".toList) text ∧
      configLoad (some text) = .ok (singleNode "node1".toList) := by
  have stored : ConfigStore (singleNode "node1".toList) _ := ⟨_, walks_reverse _, rfl⟩
  exact ⟨_, stored, configLoad_configStore (singleNode "node1".toList) (singleNode_valid (by decide))
    (by simp [singleNode]) _ stored⟩

theorem configLoad_configStore_unnamed :
    ∃ config text, config.Valid ∧ ConfigStore config text ∧ configLoad (some text) = .error .EINVAL := by
  let walked : JConfig := (singleNode []).co_clusters.foldl clusterStore []
    |>.reverse.map fun elem => (elem.1, elem.2.map List.reverse)
  have printable : ∀ entry ∈ entries walked, Printable entry := by decide +kernel
  refine ⟨singleNode [], dumpMemory walked, singleNode_valid (by decide), ⟨walked, walks_reverse _, rfl⟩, ?_⟩
  rw [configLoad, parseFile_dumpMemory printable]
  decide +kernel

end Ocfs2.O2cb
