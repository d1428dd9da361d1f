import Mathlib.Tactic

set_option autoImplicit false

namespace Ocfs2

/-- The error codes that the modelled functions return. The last two are no codes of the library: the bit
that stops a walk, where it is returned as a code, and the mark of a failed assertion or an expression that
C leaves undefined. -/
inductive Errcode where
  | io
  | shortRead
  | shortWrite
  | invalidBit
  | invalidArgument
  | bitNotFound
  | noMemory
  | badBlkno
  | badInodeMagic
  | badGroupDescMagic
  | roFilesys
  | inodeNotValid
  | inodeCannotBeIterated
  | corruptGroupDesc
  | internalFailure
  | freeingUnallocatedRegion
  | badJournalTag
  | duplicateBlock
  | dirCorrupted
  | dirNoSpace
  | badDirBlockMagic
  | badExtentBlockMagic
  | corruptExtentBlock
  | corruptChain
  | badMagic
  | ocfsRev
  | badJournalSuperblockMagic
  | unsuppFeature
  | roUnsuppFeature
  | conflictingFeatures
  | invalidLockres
  | noSpace
  | cannotInlineData
  | blockAbort
  | undefined
  deriving DecidableEq

def intMax : Nat := 2 ^ 31 - 1

def int64Max : Nat := 2 ^ 63 - 1

def uint64Max : Nat := 2 ^ 64 - 1

end Ocfs2
