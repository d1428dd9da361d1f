import Ocfs2.Libocfs2.Common

set_option autoImplicit false

/-!
Pass 3 of the check: every directory is walked up through the parents that pass 2 has recorded. The tree of
parent records is the list of its nodes in order. Link counts are not part of the state.
-/

namespace Ocfs2.Pass3

structure DirParent where
  dp_ino : Nat
  dp_dot_dot : Nat
  dp_dirent : Nat
  dp_loop_no : Nat
  dp_connected : Bool
  dp_in_orphan_dir : Bool
  deriving DecidableEq

section DirParents

def addDirParent (ino dot_dot dirent : Nat) (in_orphan_dir : Bool) :
    List DirParent → Except Errcode (List DirParent)
  | [] => .ok [⟨ino, dot_dot, dirent, 0, false, in_orphan_dir⟩]
  | dp :: root =>
    if ino < dp.dp_ino then .ok (⟨ino, dot_dot, dirent, 0, false, in_orphan_dir⟩ :: dp :: root)
    else if ino > dp.dp_ino then (addDirParent ino dot_dot dirent in_orphan_dir root).map (dp :: ·)
    else .error .internalFailure

def dirParentLookup (root : List DirParent) (ino : Nat) : Option DirParent :=
  root.find? (·.dp_ino == ino)

def modify (root : List DirParent) (ino : Nat) (f : DirParent → DirParent) : List DirParent :=
  root.map fun dp => if dp.dp_ino = ino then f dp else dp

end DirParents

inductive Problem where
  | rootDirMissing
  | lostfoundMissing
  | dirNotConnected
  | dirDotdot
  deriving DecidableEq

structure Env where
  prompt : Problem → Nat → Bool
  root_allocated : Bool
  new_root : Except Errcode Nat
  new_lostfound : Except Errcode Nat
  init_dir : Nat → Option Errcode
  write_primary_super : Option Errcode
  lookup_lostfound : Nat → Option Nat
  is_dir : Nat → Except Errcode Bool
  link : Nat → Nat → Option Errcode
  dot_dot_fixed : Nat → Bool

structure O2fsckState where
  fs_root_blkno : Nat
  fs_sysdir_blkno : Nat
  ost_lostfound_ino : Nat
  ost_dir_parents : List DirParent
  loop_no : Nat
  deriving DecidableEq

section Pass

variable (env : Env)

def checkRoot (ost : O2fsckState) : O2fsckState :=
  if env.root_allocated then ost
  else if !env.prompt .rootDirMissing ost.fs_root_blkno then ost
  else
    match env.new_root with
    | .error _ => ost
    | .ok blkno =>
      if (env.init_dir blkno).isSome then ost
      else
        match addDirParent blkno ost.fs_root_blkno ost.fs_root_blkno false ost.ost_dir_parents with
        | .error _ => ost
        | .ok parents =>
          let ost := { ost with ost_dir_parents := parents }
          if env.write_primary_super.isSome then ost else { ost with fs_root_blkno := blkno }

def checkLostfound (ost : O2fsckState) : O2fsckState :=
  match env.lookup_lostfound ost.fs_root_blkno with
  | some ino => { ost with ost_lostfound_ino := ino }
  | none =>
    if !env.prompt .lostfoundMissing ost.fs_root_blkno then ost
    else
      match env.new_lostfound with
      | .error _ => ost
      | .ok blkno =>
        if (env.init_dir blkno).isSome then ost
        else if (env.link ost.fs_root_blkno blkno).isSome then ost
        else
          match addDirParent blkno ost.fs_root_blkno ost.fs_root_blkno false ost.ost_dir_parents with
          | .error _ => ost
          | .ok parents => { ost with ost_dir_parents := parents, ost_lostfound_ino := blkno }

def fixDotDot (ost : O2fsckState) (ino : Nat) : O2fsckState :=
  if env.dot_dot_fixed ino then
    { ost with
      ost_dir_parents := modify ost.ost_dir_parents ino fun dp => { dp with dp_dot_dot := dp.dp_dirent } }
  else ost

def reconnectFile (ost : O2fsckState) (inode : Nat) : O2fsckState :=
  let found :=
    if ost.ost_lostfound_ino = 0 then env.lookup_lostfound ost.fs_root_blkno else some ost.ost_lostfound_ino
  match found with
  | none => ost
  | some lostfound_ino =>
    let ost := { ost with ost_lostfound_ino := lostfound_ino }
    match env.is_dir inode with
    | .error _ => ost
    | .ok is_dir =>
      if (env.link ost.ost_lostfound_ino inode).isSome then ost
      else if is_dir then
        { ost with
          ost_dir_parents := modify ost.ost_dir_parents inode fun dp => { dp with dp_dirent := lostfound_ino } }
      else ost

def notConnected (ost : O2fsckState) (ino : Nat) : O2fsckState :=
  if env.prompt .dirNotConnected ino then reconnectFile env ost ino else ost

def ascend : Nat → O2fsckState → Nat → Except Errcode O2fsckState
  | 0, _, _ => .error .undefined
  | fuel + 1, ost, ino =>
    match dirParentLookup ost.ost_dir_parents ino with
    | none => .error .undefined
    | some dp =>
      if dp.dp_connected then .ok ost
      else
        let ost := { ost with
          ost_dir_parents := modify ost.ost_dir_parents ino fun dp => { dp with dp_connected := true } }
        if dp.dp_dirent ≠ 0 then
          match dirParentLookup ost.ost_dir_parents dp.dp_dirent with
          | none => .error .internalFailure
          | some par =>
            if par.dp_loop_no ≠ ost.loop_no then
              let ost := { ost with
                ost_dir_parents := modify ost.ost_dir_parents dp.dp_dirent
                  fun par => { par with dp_loop_no := ost.loop_no } }
              ascend fuel ost dp.dp_dirent
            else .ok (notConnected env ost ino)
        else .ok (notConnected env ost ino)

def checkDotDot (ost : O2fsckState) (ino : Nat) : O2fsckState :=
  let ost := { ost with
    ost_dir_parents := modify ost.ost_dir_parents ino fun dir =>
      if dir.dp_in_orphan_dir then { dir with dp_dot_dot := dir.dp_dirent } else dir }
  match dirParentLookup ost.ost_dir_parents ino with
  | none => ost
  | some dir =>
    if dir.dp_dirent ≠ dir.dp_dot_dot then
      if env.prompt .dirDotdot ino then fixDotDot env ost ino else ost
    else ost

def connectDirectory (ost : O2fsckState) (ino : Nat) : Except Errcode O2fsckState := do
  let ost := { ost with loop_no := ost.loop_no + 1 }
  let ost ← ascend env (ost.ost_dir_parents.length + 1) ost ino
  return checkDotDot env ost ino

def markConnected (ost : O2fsckState) (ino : Nat) : Except Errcode O2fsckState :=
  match dirParentLookup ost.ost_dir_parents ino with
  | none => .error .internalFailure
  | some _ =>
    .ok { ost with
      ost_dir_parents := modify ost.ost_dir_parents ino fun dp => { dp with dp_connected := true } }

def o2fsckPass3 (ost : O2fsckState) : Except Errcode O2fsckState := do
  let ost := checkLostfound env (checkRoot env ost)
  let ost ← markConnected ost ost.fs_root_blkno
  let ost ← markConnected ost ost.fs_sysdir_blkno
  (ost.ost_dir_parents.map DirParent.dp_ino).foldlM (connectDirectory env) ost

end Pass

end Ocfs2.Pass3
