import Mathlib.Tactic

set_option autoImplicit false

/-!
A node is seen together with the path up to the root, so that the parent pointers of the source are
the frames of a zipper. The mirrored halves of the source are one definition: the side on which a
node hangs picks the half.
-/

namespace Ocfs2.Rbtree

inductive Color where
  | red
  | black
  deriving DecidableEq

inductive Side where
  | left
  | right
  deriving DecidableEq

inductive Node (α : Type) where
  | nil
  | node (rb_color : Color) (rb_left : Node α) (entry : α) (rb_right : Node α)
  deriving DecidableEq

structure Frame (α : Type) where
  side : Side
  rb_color : Color
  entry : α
  sibling : Node α
  deriving DecidableEq

section Model

variable {α : Type}

def Node.isRed : Node α → Bool
  | .node .red _ _ _ => true
  | _ => false

def Node.setBlack : Node α → Node α
  | .nil => .nil
  | .node _ l e r => .node .black l e r

def link (side : Side) (color : Color) (near : Node α) (entry : α) (far : Node α) : Node α :=
  match side with
  | .left => .node color near entry far
  | .right => .node color far entry near

def near (side : Side) (l r : Node α) : Node α :=
  match side with
  | .left => l
  | .right => r

def far (side : Side) (l r : Node α) : Node α :=
  match side with
  | .left => r
  | .right => l

def plug (n : Node α) : List (Frame α) → Node α
  | [] => n
  | f :: path => plug (link f.side f.rb_color n f.entry f.sibling) path

def rbInsertColor (n : Node α) : List (Frame α) → Node α
  | [] => n.setBlack
  | [parent] => (plug n [parent]).setBlack
  | parent :: gparent :: path =>
    if parent.rb_color = .black then (plug n (parent :: gparent :: path)).setBlack
    else
      let uncle := gparent.sibling
      if uncle.isRed then
        rbInsertColor (link gparent.side .red
          (link parent.side .black n parent.entry parent.sibling) gparent.entry uncle.setBlack) path
      else
        match parent.side == gparent.side, n with
        | true, n =>
          (plug (link gparent.side .black n parent.entry
            (link gparent.side .red parent.sibling gparent.entry uncle)) path).setBlack
        -- the node is the inner grandchild: one more rotation brings it above its parent
        | false, .node _ l e r =>
          (plug (link gparent.side .black
            (link gparent.side .red parent.sibling parent.entry (near gparent.side l r)) e
            (link gparent.side .red (far gparent.side l r) gparent.entry uncle)) path).setBlack
        | false, .nil => (plug n (parent :: gparent :: path)).setBlack

inductive EraseRound (α : Type) where
  | moveUp (node : Node α)
  | finish (node : Node α)

def eraseRound (side : Side) (n : Node α) (color : Color) (entry : α) : Node α → EraseRound α
  | .nil => .finish (link side color n entry .nil)
  | .node otherColor l e r =>
    if !(near side l r).isRed && !(far side l r).isRed then
      .moveUp (link side color n entry (.node .red l e r))
    else if !(far side l r).isRed then
      match near side l r with
      | .nil => .finish (link side color n entry (.node otherColor l e r))
      | .node _ nl ne nr =>
        .finish (link side color (link side .black n entry (near side nl nr)) ne
          (link side .black (far side nl nr) e (far side l r)))
    else
      .finish (link side color (link side .black n entry (near side l r)) e (far side l r).setBlack)

def rbEraseColor (n : Node α) : List (Frame α) → Node α
  | [] => n.setBlack
  | parent :: path =>
    if n.isRed then plug n.setBlack (parent :: path)
    else
      match parent.sibling with
      | .node .red l e r =>
        let above : Frame α := ⟨parent.side, .black, e, far parent.side l r⟩
        match eraseRound parent.side n .red parent.entry (near parent.side l r) with
        -- the parent was coloured red by the rotation, so the loop ends with it
        | .moveUp n => plug n.setBlack (above :: path)
        | .finish n => (plug n (above :: path)).setBlack
      | other =>
        match eraseRound parent.side n parent.rb_color parent.entry other with
        | .moveUp n => rbEraseColor n path
        | .finish n => (plug n path).setBlack

def leftmost : Node α → Color → α → Node α → List (Frame α) → Color × α × Node α × List (Frame α)
  | .nil, color, entry, right, path => (color, entry, right, path)
  | .node c l e r, color, entry, right, path =>
    leftmost l c e r (⟨.left, color, entry, right⟩ :: path)

def rbErase (color : Color) (l r : Node α) (path : List (Frame α)) : Node α :=
  let unlink (color : Color) (child : Node α) (path : List (Frame α)) :=
    if color = .black then rbEraseColor child path else plug child path
  match l, r with
  | .nil, r => unlink color r path
  | l, .nil => unlink color l path
  | l, .node rc rl re rr =>
    let (c, e, child, inner) := leftmost rl rc re rr []
    -- the successor takes the place and the colour of the erased node
    unlink c child (inner ++ ⟨.right, color, e, l⟩ :: path)

def descend (order : α → Ordering) : Node α → List (Frame α) → Node α × List (Frame α)
  | .nil, path => (.nil, path)
  | .node c l e r, path =>
    match order e with
    | .lt => descend order l (⟨.left, c, e, r⟩ :: path)
    | .gt => descend order r (⟨.right, c, e, l⟩ :: path)
    | .eq => (.node c l e r, path)

def search (order : α → Ordering) (root : Node α) : Option α :=
  match (descend order root []).1 with
  | .nil => none
  | .node _ _ e _ => some e

def rbInsert (order : α → Ordering) (entry : α) (root : Node α) : Node α :=
  rbInsertColor (.node .red .nil entry .nil) (descend order root []).2

def locate (here : α → Bool) : Node α → List (Frame α) → Option (Color × Node α × Node α × List (Frame α))
  | .nil, _ => none
  | .node c l e r, path =>
    match locate here l (⟨.left, c, e, r⟩ :: path) with
    | some found => some found
    | none => if here e then some (c, l, r, path) else locate here r (⟨.right, c, e, l⟩ :: path)

def rbEraseEntry (here : α → Bool) (root : Node α) : Node α :=
  match locate here root [] with
  | some (c, l, r, path) => rbErase c l r path
  | none => root

def climb (side : Side) : List (Frame α) → Option α
  | [] => none
  | f :: path => if f.side = side then some f.entry else climb side path

def outermost : Side → Node α → α → α
  | _, .nil, entry => entry
  | .left, .node _ l e _, _ => outermost .left l e
  | .right, .node _ _ e r, _ => outermost .right r e

def rbNext (right : Node α) (path : List (Frame α)) : Option α :=
  match right with
  | .node _ l e _ => some (outermost .left l e)
  | .nil => climb .left path

def rbPrev (left : Node α) (path : List (Frame α)) : Option α :=
  match left with
  | .node _ _ e r => some (outermost .right r e)
  | .nil => climb .right path

def Node.map (f : α → α) : Node α → Node α
  | .nil => .nil
  | .node c l e r => .node c (l.map f) (f e) (r.map f)

def Node.toList : Node α → List α
  | .nil => []
  | .node _ l e r => l.toList ++ e :: r.toList

end Model

section Order

variable {α : Type} (n : Node α) (path : List (Frame α))

def lower (side : Side) (entry : α) (sibling : List α) : List α :=
  match side with
  | .left => []
  | .right => sibling ++ [entry]

def upper (side : Side) (entry : α) (sibling : List α) : List α :=
  match side with
  | .left => entry :: sibling
  | .right => []

def before : List (Frame α) → List α
  | [] => []
  | f :: path => before path ++ lower f.side f.entry f.sibling.toList

def after : List (Frame α) → List α
  | [] => []
  | f :: path => upper f.side f.entry f.sibling.toList ++ after path

@[simp] theorem toList_setBlack : n.setBlack.toList = n.toList := by
  cases n <;> rfl

theorem toList_link (side : Side) (c : Color) (near : Node α) (e : α) (far : Node α) :
    (link side c near e far).toList =
      lower side e far.toList ++ near.toList ++ upper side e far.toList := by
  cases side <;> simp [link, lower, upper, Node.toList]

theorem toList_plug : (plug n path).toList = before path ++ n.toList ++ after path := by
  induction path generalizing n with
  | nil => simp [plug, before, after]
  | cons f path ih => simp [plug, ih, toList_link, before, after]

theorem toList_rbInsertColor : (rbInsertColor n path).toList = before path ++ n.toList ++ after path := by
  fun_induction rbInsertColor n path with
  | case1 n => simp [before, after]
  | case2 n parent => simp [toList_plug]
  | case3 n parent gparent path black => simp [toList_plug]
  | case4 n parent gparent path red uncle uncleRed ih =>
    simp [ih, toList_link, before, after, uncle]
  | case5 parent gparent path red uncle black n same =>
    simp only [beq_iff_eq] at same
    rw [toList_setBlack, toList_plug, toList_link, toList_link, before, before, after, after, same]
    cases gparent.side <;> simp [lower, upper, uncle]
  | case6 parent gparent path red uncle black nc l e r inner =>
    rw [toList_setBlack, toList_plug, toList_link, toList_link, toList_link, before, before, after,
      after]
    cases side : gparent.side <;> cases other : parent.side <;>
      simp_all [lower, upper, near, far, uncle, Node.toList]
  | case7 parent gparent path red uncle black inner => simp [toList_plug]

def EraseRound.toList : EraseRound α → List α
  | .moveUp n => n.toList
  | .finish n => n.toList

theorem lower_upper_node (side : Side) (xs : List α) (entry : α) (c : Color) (l : Node α) (e : α) (r : Node α) :
    lower side entry (Node.node c l e r).toList ++ xs ++ upper side entry (Node.node c l e r).toList =
      lower side e (far side l r).toList ++
        (lower side entry (near side l r).toList ++ xs ++ upper side entry (near side l r).toList) ++
        upper side e (far side l r).toList := by
  cases side <;> simp [lower, upper, near, far, Node.toList]

theorem toList_eraseRound (side : Side) (color : Color) (entry : α) (other : Node α) :
    (eraseRound side n color entry other).toList =
      lower side entry other.toList ++ n.toList ++ upper side entry other.toList := by
  cases other with
  | nil => simp [eraseRound, EraseRound.toList, toList_link]
  | node c l e r =>
    rw [lower_upper_node]
    simp only [eraseRound]
    split
    next =>
      rw [EraseRound.toList, toList_link, lower_upper_node]
    next =>
      split
      next =>
        split
        next nil => rw [EraseRound.toList, toList_link, lower_upper_node]
        next nc nl ne nr child =>
          rw [EraseRound.toList, toList_link, toList_link, toList_link, child, lower_upper_node]
          cases side <;> simp [lower, upper]
      next => rw [EraseRound.toList, toList_link, toList_link, toList_setBlack]

variable {l r : Node α} {c : Color}

theorem rotated_order {parent : Frame α} (xs : List α) {e : α}
    (sibling : parent.sibling = .node c l e r) :
    before (⟨parent.side, .black, e, far parent.side l r⟩ :: path) ++
        (lower parent.side parent.entry (near parent.side l r).toList ++ xs ++
          upper parent.side parent.entry (near parent.side l r).toList) ++
        after (⟨parent.side, .black, e, far parent.side l r⟩ :: path) =
      before (parent :: path) ++ xs ++ after (parent :: path) := by
  have split := lower_upper_node parent.side xs parent.entry c l e r
  have framed := congrArg (fun ys => before path ++ (ys ++ after path)) split
  simpa [before, after, sibling] using framed.symm

theorem toList_rbEraseColor : (rbEraseColor n path).toList = before path ++ n.toList ++ after path := by
  fun_induction rbEraseColor n path with
  | case1 n => simp [before, after]
  | case2 n parent path red => simp [toList_plug]
  | case3 n parent path black l e r sibling above m round =>
    have order := toList_eraseRound n parent.side .red parent.entry (near parent.side l r)
    rw [round, EraseRound.toList] at order
    rw [toList_plug, toList_setBlack, order, rotated_order path _ sibling]
  | case4 n parent path black l e r sibling above m round =>
    have order := toList_eraseRound n parent.side .red parent.entry (near parent.side l r)
    rw [round, EraseRound.toList] at order
    rw [toList_setBlack, toList_plug, order, rotated_order path _ sibling]
  | case5 n parent path black notRed m round ih =>
    have order := toList_eraseRound n parent.side parent.rb_color parent.entry parent.sibling
    rw [round, EraseRound.toList] at order
    simp [ih, order, before, after]
  | case6 n parent path black notRed m round =>
    have order := toList_eraseRound n parent.side parent.rb_color parent.entry parent.sibling
    rw [round, EraseRound.toList] at order
    simp [toList_plug, order, before, after]

theorem before_append (inner outer : List (Frame α)) :
    before (inner ++ outer) = before outer ++ before inner := by
  induction inner with
  | nil => simp [before]
  | cons f inner ih => simp [before, ih]

theorem after_append (inner outer : List (Frame α)) :
    after (inner ++ outer) = after inner ++ after outer := by
  induction inner with
  | nil => simp [after]
  | cons f inner ih => simp [after, ih]

theorem leftmost_order {e : α} {path : List (Frame α)}
    {c' : Color} {e' : α} {child : Node α} {path' : List (Frame α)}
    (found : leftmost l c e r path = (c', e', child, path')) (front : before path = []) :
    before path' = [] ∧ e' :: child.toList ++ after path' = l.toList ++ e :: r.toList ++ after path := by
  induction l generalizing c e r path with
  | nil =>
    obtain ⟨rfl, rfl, rfl, rfl⟩ := found
    exact ⟨front, rfl⟩
  | node lc ll le lr ihl _ =>
    have next := ihl found (by simp [before, lower, front])
    refine ⟨next.1, next.2.trans ?_⟩
    simp [Node.toList, after, upper]

theorem toList_rbErase (c : Color) (l r : Node α) :
    (rbErase c l r path).toList = before path ++ (l.toList ++ r.toList) ++ after path := by
  have unlinked (color : Color) (child : Node α) (path : List (Frame α)) :
      (if color = .black then rbEraseColor child path else plug child path).toList =
        before path ++ child.toList ++ after path := by
    split
    · exact toList_rbEraseColor child path
    · exact toList_plug child path
  unfold rbErase
  split
  next => simp [unlinked, Node.toList]
  next => simp [unlinked, Node.toList]
  next rc rl re rr _ =>
    rcases found : leftmost rl rc re rr [] with ⟨c', e', child, inner⟩
    obtain ⟨front, order⟩ := leftmost_order found rfl
    have order' : e' :: (child.toList ++ after inner) = rl.toList ++ re :: rr.toList := by
      simpa [after] using order
    simp [unlinked, before_append, after_append, before, after, front, lower, upper, Node.toList,
      ← order']

theorem forall_mem_node {p : α → Prop} {e : α} :
    (∀ x ∈ (Node.node c l e r).toList, p x) ↔ (∀ x ∈ l.toList, p x) ∧ p e ∧ ∀ x ∈ r.toList, p x := by
  rw [Node.toList, List.forall_mem_append, List.forall_mem_cons]

section Locate

variable {here : α → Bool} {t : Node α} {path : List (Frame α)}

theorem locate_none (none : locate here t path = none) : ∀ x ∈ t.toList, here x = false := by
  induction t generalizing path with
  | nil => simp [Node.toList]
  | node c l e r ihl ihr =>
    unfold locate at none
    split at none
    next => cases none
    next left =>
      split at none
      next => cases none
      next differs => exact forall_mem_node.mpr ⟨ihl left, by simpa using differs, ihr none⟩

theorem locate_some {path' : List (Frame α)}
    (found : locate here t path = some (c, l, r, path')) :
    ∃ xs e ys, t.toList = xs ++ e :: ys ∧ (∀ x ∈ xs, here x = false) ∧ here e = true ∧
      before path' ++ l.toList = before path ++ xs ∧ r.toList ++ after path' = ys ++ after path := by
  induction t generalizing path with
  | nil => cases found
  | node tc tl te tr ihl ihr =>
    unfold locate at found
    split at found
    next inLeft found' =>
      rw [Option.some.injEq] at found
      subst found
      obtain ⟨xs, e, ys, list, miss, hit, lo, hi⟩ := ihl found'
      refine ⟨xs, e, ys ++ te :: tr.toList, by simp [Node.toList, list], miss, hit, ?_, ?_⟩
      · simpa [before, lower] using lo
      · simpa [after, upper] using hi
    next left =>
      have miss := locate_none left
      split at found
      next hit =>
        simp only [Option.some.injEq, Prod.mk.injEq] at found
        obtain ⟨rfl, rfl, rfl, rfl⟩ := found
        exact ⟨tl.toList, te, tr.toList, rfl, miss, hit, rfl, rfl⟩
      next differs =>
        obtain ⟨xs, e, ys, list, miss', hit, lo, hi⟩ := ihr found
        refine ⟨tl.toList ++ te :: xs, e, ys, by simp [Node.toList, list], ?_, hit, ?_, ?_⟩
        · exact List.forall_mem_append.mpr ⟨miss, List.forall_mem_cons.mpr ⟨by simpa using differs, miss'⟩⟩
        · simpa [before, lower] using lo
        · simpa [after, upper] using hi

end Locate

theorem first_unique {p : α → Bool} {xs ys as bs : List α} {x a : α}
    (same : xs ++ x :: ys = as ++ a :: bs) (missX : ∀ y ∈ xs, p y = false) (hitX : p x = true)
    (missA : ∀ y ∈ as, p y = false) (hitA : p a = true) : xs = as ∧ x = a ∧ ys = bs := by
  have front {zs ws : List α} {z : α} (miss : ∀ y ∈ zs, p y = false) (hit : p z = true) :
      (zs ++ z :: ws).takeWhile (!p ·) = zs := by
    rw [List.takeWhile_append_of_pos (by simpa using miss), List.takeWhile_cons_of_neg (by simp [hit]),
      List.append_nil]
  obtain rfl : xs = as := by rw [← @front xs ys x missX hitX, same, front missA hitA]
  simpa using same

theorem toList_rbEraseEntry (here : α → Bool) (root : Node α) :
    (rbEraseEntry here root).toList = root.toList.eraseP here := by
  unfold rbEraseEntry
  split
  next c l r path found =>
    obtain ⟨xs, e, ys, list, miss, hit, lo, hi⟩ := locate_some found
    have front : before path ++ l.toList = xs := by simpa [before] using lo
    have back : r.toList ++ after path = ys := by simpa [after] using hi
    rw [toList_rbErase, list, List.eraseP_append_right _ (by simpa using miss),
      List.eraseP_cons_of_pos hit, ← front, ← back]
    simp
  next none =>
    rw [List.eraseP_of_forall_not (by simpa using locate_none none)]

theorem climb_left : climb .left path = (after path).head? := by
  induction path with
  | nil => rfl
  | cons f path ih =>
    rcases f with ⟨side, c, e, sibling⟩
    cases side
    · rfl
    · simp [climb, after, upper, ih]

theorem climb_right : climb .right path = (before path).getLast? := by
  induction path with
  | nil => rfl
  | cons f path ih =>
    rcases f with ⟨side, c, e, sibling⟩
    cases side
    · simp [climb, before, lower, ih]
    · simp [climb, before, lower]

theorem outermost_left (e : α) (rest : List α) :
    some (outermost .left n e) = (n.toList ++ e :: rest).head? := by
  induction n generalizing e rest with
  | nil => rfl
  | node c l x r ihl _ => simp [outermost, Node.toList, ihl x (r.toList ++ e :: rest)]

theorem outermost_right (e : α) (rest : List α) :
    some (outermost .right n e) = (rest ++ e :: n.toList).getLast? := by
  induction n generalizing e rest with
  | nil => simp [outermost, Node.toList]
  | node c l x r _ ihr =>
    rw [outermost, ihr x (rest ++ e :: l.toList)]
    simp [Node.toList]

theorem rbNext_eq : rbNext n path = (n.toList ++ after path).head? := by
  cases n with
  | nil => exact climb_left path
  | node c l e r =>
    rw [rbNext, outermost_left l e (r.toList ++ after path)]
    simp [Node.toList]

theorem rbPrev_eq : rbPrev n path = (before path ++ n.toList).getLast? := by
  cases n with
  | nil => simp [rbPrev, climb_right, Node.toList]
  | node c l e r =>
    rw [rbPrev, outermost_right r e (before path ++ l.toList)]
    simp [Node.toList]

@[simp] theorem toList_map (f : α → α) : (n.map f).toList = n.toList.map f := by
  induction n with
  | nil => rfl
  | node c l e r ihl ihr => simp [Node.map, Node.toList, ihl, ihr]

end Order

section Search

variable {α : Type}

/-- The entries are ordered as the search expects: first those on whose right it looks further, then
those it may stop at, then those on whose left it looks further. -/
def Cut (order : α → Ordering) (xs : List α) : Prop :=
  xs.Pairwise fun a b => (order b = .gt → order a = .gt) ∧ (order a = .lt → order b = .lt)

theorem descend_order (order : α → Ordering) (t : Node α) (path : List (Frame α)) :
    before (descend order t path).2 ++ (descend order t path).1.toList ++ after (descend order t path).2 =
      before path ++ t.toList ++ after path := by
  induction t generalizing path with
  | nil => rfl
  | node c l e r ihl ihr =>
    rw [descend]
    split
    · rw [ihl]
      simp [before, after, lower, upper, Node.toList]
    · rw [ihr]
      simp [before, after, lower, upper, Node.toList]
    · rfl

variable {order : α → Ordering} {t : Node α} {path path' : List (Frame α)} {root : Node α} {e : α}

theorem descend_found {c : Color} {l r : Node α}
    (found : descend order t path = (.node c l e r, path')) : e ∈ t.toList ∧ order e = .eq := by
  induction t generalizing path with
  | nil => cases found
  | node tc tl te tr ihl ihr =>
    unfold descend at found
    split at found
    next =>
      have := ihl found
      exact ⟨by simp [Node.toList, this.1], this.2⟩
    next =>
      have := ihr found
      exact ⟨by simp [Node.toList, this.1], this.2⟩
    next equal =>
      obtain ⟨⟨-, -, rfl, -⟩, -⟩ := found
      exact ⟨by simp [Node.toList], equal⟩

theorem descend_nil (cut : Cut order t.toList) (missed : descend order t path = (.nil, path')) :
    (∀ e ∈ t.toList, order e ≠ .eq) ∧
      before path' = before path ++ t.toList.filter (order · == .gt) ∧
      after path' = t.toList.filter (order · == .lt) ++ after path := by
  induction t generalizing path with
  | nil =>
    simp only [descend, Prod.mk.injEq, true_and] at missed
    simp [Node.toList, missed]
  | node tc tl te tr ihl ihr =>
    simp only [Cut, Node.toList, List.pairwise_append, List.pairwise_cons] at cut
    obtain ⟨cutL, ⟨rights, cutR⟩, across⟩ := cut
    unfold descend at missed
    split at missed
    next less =>
      obtain ⟨noneL, lo, hi⟩ := ihl cutL missed
      have right : ∀ x ∈ tr.toList, order x = .lt := fun x h => (rights x h).2 less
      refine ⟨forall_mem_node.mpr ⟨noneL, by simp [less], fun x h => by simp [right x h]⟩, ?_, ?_⟩
      · have empty : tr.toList.filter (order · == .gt) = [] :=
          List.filter_eq_nil_iff.mpr (fun x h => by simp [right x h])
        simp [lo, before, lower, Node.toList, less, empty]
      · have all : tr.toList.filter (order · == .lt) = tr.toList :=
          List.filter_eq_self.mpr (fun x h => by simp [right x h])
        simp [hi, after, upper, Node.toList, less, all]
    next greater =>
      obtain ⟨noneR, lo, hi⟩ := ihr cutR missed
      have left : ∀ x ∈ tl.toList, order x = .gt :=
        fun x h => (across x h te List.mem_cons_self).1 greater
      refine ⟨forall_mem_node.mpr ⟨fun x h => by simp [left x h], by simp [greater], noneR⟩, ?_, ?_⟩
      · have all : tl.toList.filter (order · == .gt) = tl.toList :=
          List.filter_eq_self.mpr (fun x h => by simp [left x h])
        simp [lo, before, lower, Node.toList, greater, all]
      · have empty : tl.toList.filter (order · == .lt) = [] :=
          List.filter_eq_nil_iff.mpr (fun x h => by simp [left x h])
        simp [hi, after, upper, Node.toList, greater, empty]
    next => cases missed

theorem search_some (found : search order root = some e) : e ∈ root.toList ∧ order e = .eq := by
  rcases walk : descend order root [] with ⟨t, path⟩
  rw [search, walk] at found
  cases t with
  | nil => cases found
  | node c l e' r =>
    simp only [Option.some.injEq] at found
    subst found
    exact descend_found walk

theorem search_none (cut : Cut order root.toList) (missed : search order root = none) :
    ∀ e ∈ root.toList, order e ≠ .eq := by
  rcases walk : descend order root [] with ⟨t, path⟩
  rw [search, walk] at missed
  cases t with
  | nil => exact (descend_nil cut walk).1
  | node c l e' r => cases missed

theorem toList_rbInsert (entry : α) (cut : Cut order root.toList) (fresh : ∀ e ∈ root.toList, order e ≠ .eq) :
    (rbInsert order entry root).toList =
      root.toList.filter (order · == .gt) ++ entry :: root.toList.filter (order · == .lt) := by
  rcases walk : descend order root [] with ⟨t, path⟩
  cases t with
  | nil =>
    obtain ⟨-, lo, hi⟩ := descend_nil cut walk
    rw [rbInsert, walk, toList_rbInsertColor, lo, hi]
    simp [before, after, Node.toList]
  | node c l e r =>
    obtain ⟨member, equal⟩ := descend_found walk
    exact absurd equal (fresh e member)

end Search

end Ocfs2.Rbtree
