import Ocfs2.Libocfs2.KernelRbtree

set_option autoImplicit false

namespace Ocfs2.Rbtree

variable {α : Type} {s : Side} {c : Color} {n f t : Node α} {e : α} (path : List (Frame α)) (order : α → Ordering)

def Node.height : Node α → Nat
  | .nil => 0
  | .node .red l _ _ => l.height
  | .node .black l _ _ => l.height + 1

def Node.depth : Node α → Nat
  | .nil => 0
  | .node _ l _ r => max l.depth r.depth + 1

def Node.Balanced : Node α → Prop
  | .nil => True
  | .node c l _ r => l.Balanced ∧ r.Balanced ∧ l.height = r.height ∧ (c = .red → l.isRed = false ∧ r.isRed = false)

/-- What may stand where `x` stands. -/
def Node.Fits (y x : Node α) : Prop := y.Balanced ∧ y.height = x.height ∧ (x.isRed = false → y.isRed = false)

def Node.Sound (t : Node α) : Prop := t.isRed = false ∧ t.Balanced

attribute [local grind] Node.height Node.setBlack Node.Sound Node.Balanced Node.Fits Node.isRed near far plug
attribute [local grind cases] Color Side

@[local grind =] theorem balanced_link : (link s c n e f).Balanced ↔
    n.Balanced ∧ f.Balanced ∧ n.height = f.height ∧ (c = .red → n.isRed = false ∧ f.isRed = false) := by
  cases s <;> grind [link]

@[local grind =] theorem isRed_link : (link s c n e f).isRed = (c == .red) := by
  cases s <;> cases c <;> rfl

@[local grind =] theorem height_link (same : n.height = f.height) :
    (link s c n e f).height = n.height + if c = .red then 0 else 1 := by
  cases s <;> cases c <;> grind [link]

@[local grind =] theorem isRed_setBlack (t : Node α) : t.setBlack.isRed = false := by
  cases t <;> rfl

@[local grind =] theorem height_setBlack (red : t.isRed = true) : t.setBlack.height = t.height + 1 := by
  rcases t with _ | ⟨_ | _, l, e, r⟩ <;> grind

@[local grind →] theorem balanced_setBlack (balanced : t.Balanced) : t.setBlack.Balanced := by
  cases t <;> grind

theorem Node.Sound.setBlack (sound : t.Sound) : t.setBlack.Sound :=
  ⟨isRed_setBlack t, balanced_setBlack sound.2⟩

theorem sound_plug {x : Node α} (t : (plug x path).Sound) :
    x.Balanced ∧ ∀ y : Node α, y.Fits x → (plug y path).Sound := by
  induction path generalizing x with
  | nil => grind
  | cons f path ih =>
    obtain ⟨whole, refill⟩ := ih t
    exact ⟨by grind, fun y fits => refill (link f.side f.rb_color y f.entry f.sibling) (by grind)⟩

-- `m` stood where the red node `n` is now; the loop goes up while the parent is red as well
theorem sound_rbInsertColor (n : Node α) (path : List (Frame α)) {m : Node α} (t : (plug m path).Sound)
    (black : m.isRed = false) (red : n.isRed = true) (balanced : n.Balanced) (same : n.height = m.height) :
    (rbInsertColor n path).Sound := by
  match path with
  | [] => exact ⟨isRed_setBlack n, balanced_setBlack balanced⟩
  | [p] => exact Node.Sound.setBlack (t := plug n [p]) (by grind)
  | ⟨ps, pc, pe, px⟩ :: ⟨gs, gc, ge, gx⟩ :: path =>
    obtain ⟨whole, refill⟩ := sound_plug path t
    cases pc with
    | black => exact (refill _ (by grind)).setBlack
    | red =>
      simp only [rbInsertColor, reduceCtorEq, if_false]
      split_ifs
      · exact sound_rbInsertColor _ path t (by grind) (by grind) (by grind) (by grind)
      · cases gs <;> split <;> exact (refill _ (by grind)).setBlack

theorem eraseRound_spec (s : Side) (c : Color) (e : α) (m other : Node α)
    (balanced : n.Balanced) (more : m.height = n.height + 1) (sibling : other.isRed = false)
    (whole : (link s c m e other).Balanced) : match eraseRound s n c e other with
      | .moveUp up => up.setBlack.Balanced ∧ (link s c m e other).height = up.height + 1 ∧ up.isRed = (c == .red)
      | .finish done => done.Fits (link s c m e other) := by
  rcases other with _ | ⟨_ | _, l, oe, r⟩
  · grind
  · grind
  · rw [eraseRound]
    split_ifs
    · cases s <;> grind [link]
    · split
      · grind
      · cases s <;> grind [link]
    · cases s <;> grind [link]

-- below `n` there is one black node less than there was below `m`, so that its sibling is not empty
theorem sound_rbEraseColor (n : Node α) (path : List (Frame α)) {m : Node α} (t : (plug m path).Sound)
    (colour : n.isRed = false → m.isRed = false) (balanced : n.setBlack.Balanced) (more : m.height = n.height + 1) :
    (rbEraseColor n path).Sound := by
  match path with
  | [] => exact ⟨isRed_setBlack n, balanced⟩
  | ⟨s, pc, pe, px⟩ :: path =>
    obtain ⟨whole, refill⟩ := sound_plug path t
    rw [rbEraseColor]
    split_ifs with red
    · exact refill _ (by grind)
    · have same : n.Balanced := by rcases n with _ | ⟨_ | _, _, _, _⟩ <;> grind
      rcases px with _ | ⟨_ | _, l, e, r⟩
      · grind
      · have round := eraseRound_spec s .red pe m (near s l r) same more (by grind) (by grind)
        dsimp only
        split <;> simp only [*] at round
        · exact refill _ (by grind)
        · exact (refill _ (by grind)).setBlack
      · have round := eraseRound_spec s pc pe m _ same more (by grind) whole
        dsimp only
        split <;> simp only [*] at round
        · exact sound_rbEraseColor _ path t (by grind) round.1 round.2.1
        · exact (refill _ round).setBlack

theorem plug_append (x : Node α) (inner outer : List (Frame α)) :
    plug x (inner ++ outer) = plug (plug x inner) outer := by
  induction inner generalizing x <;> grind

theorem plug_leftmost (t : Node α) (c : Color) (e : α) (r : Node α) :
    let (c', e', child, inner) := leftmost t c e r path
    plug (.node c' .nil e' child) inner = plug (.node c t e r) path := by
  induction t generalizing c e r path <;> grind [leftmost, link]

theorem sound_rbErase (l r : Node α) (t : (plug (.node c l e r) path).Sound) :
    (rbErase c l r path).Sound := by
  have unlink (c : Color) (child : Node α) (e : α) (path : List (Frame α))
      (only : (plug (.node c .nil e child) path).Sound) :
      (if c = .black then rbEraseColor child path else plug child path).Sound := by
    obtain ⟨whole, refill⟩ := sound_plug path only
    split_ifs
    · exact sound_rbEraseColor _ path only (by grind) (by grind) (by grind)
    · exact refill _ (by grind)
  -- neither the entry nor the sides of the children make a difference
  have turned (s : Side) (other : α) : (plug (link s c l other r) path).Sound := by
    obtain ⟨whole, refill⟩ := sound_plug path (x := link .left c l e r) t
    exact refill _ (by grind)
  match l, r with
  | .nil, r => exact unlink c r e path t
  | .node lc ll le lr, .nil => exact unlink c _ e path (turned .right e)
  | .node lc ll le lr, .node rc rl re rr =>
    refine unlink _ _ (leftmost rl rc re rr []).2.1 _ ?_
    rw [plug_append, plug_leftmost]
    exact turned .left _

theorem plug_descend (t : Node α) :
    plug (descend order t path).1 (descend order t path).2 = plug t path := by
  induction t generalizing path <;> grind [descend, link]

theorem sound_rbInsert (entry : α) (sound : t.Sound) (missed : search order t = none) :
    (rbInsert order entry t).Sound := by
  have whole : (plug (descend order t []).1 (descend order t []).2).Sound := by rwa [plug_descend]
  refine sound_rbInsertColor _ _ whole ?_ ?_ ?_ ?_ <;> grind [search]

theorem plug_locate (here : α → Bool) {l r : Node α} {path path' : List (Frame α)}
    (found : locate here t path = some (c, l, r, path')) : ∃ e, plug (.node c l e r) path' = plug t path := by
  induction t generalizing path <;> grind [locate, link]

theorem sound_rbEraseEntry (here : α → Bool) (sound : t.Sound) : (rbEraseEntry here t).Sound := by
  rw [rbEraseEntry]
  split
  next c l r path found =>
    obtain ⟨e, same⟩ := plug_locate here found
    exact sound_rbErase (e := e) path l r (same ▸ sound)
  next => exact sound

theorem Node.Balanced.bounds (balanced : t.Balanced) :
    2 ^ t.height ≤ t.toList.length + 1 ∧ t.depth ≤ 2 * t.height + if t.isRed then 1 else 0 := by
  induction t with
  | nil => simp [height, depth]
  | node c l e r left right => cases c <;> grind [Node.depth, Node.toList]

theorem Node.Sound.depth_le (sound : t.Sound) : t.depth ≤ 2 * Nat.log2 (t.toList.length + 1) := by
  obtain ⟨few, shallow⟩ := sound.2.bounds
  have height := (Nat.le_log2 (Nat.add_one_ne_zero _)).mpr few
  rw [sound.1, if_neg Bool.false_ne_true] at shallow
  omega

inductive TreeOp (α : Type) where
  | insert (order : α → Ordering) (entry : α)
  | erase (here : α → Bool)

-- a new node is linked where the walk down for it has ended without a node
def applyOp (t : Node α) : TreeOp α → Node α
  | .insert order entry => if (search order t).isNone then rbInsert order entry t else t
  | .erase here => rbEraseEntry here t

theorem applyOps_balanced (ops : List (TreeOp α)) : let t := ops.foldl applyOp .nil
    t.Sound ∧ t.depth ≤ 2 * Nat.log2 (t.toList.length + 1) := by
  intro t
  have sound : t.Sound := by
    refine List.foldlRecOn ops applyOp ⟨rfl, trivial⟩ fun t sound op _ => ?_
    cases op with
    | insert order entry =>
      rw [applyOp]
      split_ifs with missed
      · exact sound_rbInsert order entry sound (Option.isNone_iff_eq_none.mp missed)
      · exact sound
    | erase here => exact sound_rbEraseEntry here sound
  exact ⟨sound, sound.depth_le⟩

end Ocfs2.Rbtree
