import Infera.Sha256

/-! The digest of a directory tree: a file is hashed over its contents, a link
over the text of its target, a directory over its entries in byte order of their
names, each with its mode and digest and all behind a length. A device node, a
pipe or a socket has no digest, and neither has a tree that holds one. -/

namespace Infera.Handoff

abbrev Bytes := List UInt8

mutual
inductive Tree
  | file (executable : Bool) (contents : Bytes)
  | link (target : Bytes)
  | special
  | dir (entries : Entries)

inductive Entries
  | nil
  | cons (name : Bytes) (child : Tree) (rest : Entries)
end

def ascii (text : String) : Bytes := text.toList.map fun c => c.toNat.toUInt8

structure Row where
  name : Bytes
  mode : Bytes
  digest : Bytes

def Row.bytes (row : Row) : Bytes := row.mode ++ ascii " " ++ row.name ++ [0] ++ row.digest

/-- Rows in byte order of their names, behind the length of the whole. -/
def digestRows (rows : List Row) : Bytes :=
  let body := (rows.insertionSort fun a b => a.name ≤ b.name).flatMap Row.bytes
  Sha256.digestBytes (ascii "tree " ++ ascii (toString body.length) ++ [0] ++ body)

mutual
def Tree.row : Tree → Option (Bytes × Bytes)
  | .file executable contents =>
    some (ascii (if executable then "100755" else "100644"), Sha256.digestBytes contents)
  | .link target => some (ascii "120000", Sha256.digestBytes target)
  | .special => none
  | .dir entries => entries.rows.map fun rows => (ascii "040000", digestRows rows)

def Entries.rows : Entries → Option (List Row)
  | .nil => some []
  | .cons name child rest => match child.row, rest.rows with
    | some (mode, digest), some rows => some (⟨name, mode, digest⟩ :: rows)
    | _, _ => none
end

def treeDigest (entries : Entries) : Option Bytes := entries.rows.map digestRows

def Entries.isEmpty : Entries → Bool
  | .nil => true
  | .cons .. => false

end Infera.Handoff
