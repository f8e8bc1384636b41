import LotBridge.Toml.Reader

/-!
# Reading TOML documents

A document is a sequence of lines: blank lines, comments, key-value pairs,
and headers `[a.b]` and `[[a.b]]` that open a table or a new table at the end
of an array of tables. Pairs go into the table the last header opened, or
into the root before any header.

What a document may not do:

* define a key twice in one table;
* open with a header a table that a header or a dotted key already defined,
  though a table made as the parent of another may be opened once;
* run a dotted key into a value that is no table, or into a table written out
  under a header of its own.

The table being filled stays apart from the document until the next header,
so a refusal found while filling it names its header's path.

## Main definitions

* `Builder`: a document being read.
* `Tree.parse`: a document's root table, or the first refusal.
-/

namespace LotBridge.Toml

open Reader

/-- A document being read: the tables finished so far, and the table being
filled, with its header's path and span and whether it is an element of an
array of tables. -/
structure Builder where
  root : List Entry
  current : List Entry
  path : List (String × Span)
  isArray : Bool
  span : Option Span

namespace Builder

/-- A document with nothing read. -/
def empty : Builder := ⟨[], [], [], false, none⟩

/-- Splits a path into its parent path and last key. -/
def splitLast (keys : List (String × Span)) : Option (List (String × Span) × (String × Span)) :=
  match keys.reverse with
  | [] => none
  | last :: revInit => some (revInit.reverse, last)

/-- Puts the table being filled into the document. -/
def finish (b : Builder) : Except String Builder :=
  match splitLast b.path with
  | none => pure { b with root := b.current, current := [] }
  | some (parentPath, (k, ks)) => do
    let table := Tree.table .header b.current b.span
    let here := some (names parentPath)
    let (root, _) ← descend false false .parent (fun _ entries =>
      if b.isArray then
        match findEntry k entries with
        | none => .ok (entries ++ [(k, ks, .tables [table])], ())
        | some (.tables items) => .ok (replaceEntry k (.tables (items ++ [table])) entries, ())
        | some _ => .error (duplicateKey k here)
      else
        match findEntry k entries with
        | none => .ok (entries ++ [(k, ks, table)], ())
        | some _ => .error (duplicateKey k here)) [] .header parentPath b.root
    pure { b with root, current := [], path := [] }

/-- Opens the table a header `[path]` names; a table made only as the parent
of another is taken up again. -/
def openTable (b : Builder) (keys : List (String × Span)) (span : Span) :
    Except String Builder := do
  let b ← b.finish
  match splitLast keys with
  | none => pure b
  | some (parentPath, (k, _)) =>
    let here := some (names parentPath)
    let (root, taken) ← descend false false .parent (fun _ entries =>
      match findEntry k entries with
      | none => .ok (entries, [])
      | some (.table .parent inner _) => .ok (entries.filter (·.1 != k), inner)
      | some _ => .error (duplicateKey k here)) [] .header parentPath b.root
    pure ⟨root, taken, keys, false, some span⟩

/-- Opens a new table at the end of the array of tables a header `[[path]]`
names. -/
def openArrayTable (b : Builder) (keys : List (String × Span)) (span : Span) :
    Except String Builder := do
  let b ← b.finish
  match splitLast keys with
  | none => pure b
  | some (parentPath, (k, ks)) =>
    let here := some (names parentPath)
    let (root, _) ← descend false false .parent (fun _ entries =>
      match findEntry k entries with
      | none => .ok (entries ++ [(k, ks, .tables [])], ())
      | some (.tables _) => .ok (entries, ())
      | some _ => .error (duplicateKey k here)) [] .header parentPath b.root
    pure ⟨root, [], keys, true, some span⟩

/-- Adds a key-value pair, its key a path, to the table being filled. -/
def addPair (b : Builder) (keys : List (String × Span)) (v : Tree) : Except String Builder :=
  match splitLast keys with
  | none => pure b
  | some (pre, (k, ks)) => do
    let (current, _) ← descend false true .dotted (fun kind entries =>
      if kind.isDotted == pre.isEmpty then .error (duplicateKey k none)
      else if (findEntry k entries).isSome then .error (duplicateKey k (some (names b.path)))
      else .ok (entries ++ [(k, ks, v)], ())) [] .header pre b.current
    pure { b with current }

end Builder

namespace Reader

/-- Reads a header line and opens its table. -/
def header (b : Builder) : Reader Builder := within (some "table header") [] do
  let start ← offset
  let keep (r : Except String Builder) : Reader Builder :=
    match r with
    | .ok b => pure b
    | .error m => failAt start none [] (some m) false
  match ← ahead with
  | ['['] => refuse none []
  | '[' :: '[' :: _ =>
    skip 2
    let keys ← commit dottedKey
    if ← startsWith "]]" then skip 2 else refuse none ["`.`", "`]]`"]
    let stop ← offset
    lineTrailing
    keep (b.openArrayTable keys ⟨start, stop⟩)
  | _ =>
    bump
    let keys ← commit dottedKey
    if (← peek) = some ']' then bump else refuse none ["`.`", "`]`"]
    let stop ← offset
    lineTrailing
    keep (b.openTable keys ⟨start, stop⟩)

/-- Reads a key-value line and adds the pair. -/
def pairLine (fuel : Nat) (b : Builder) : Reader Builder := do
  let start ← offset
  let keys ← commit dottedKey
  if (← peek) = some '=' then bump else refuse none ["`.`", "`=`"]
  blanks
  let v ← commit (value fuel)
  lineTrailing
  match b.addPair keys v with
  | .ok b => pure b
  | .error m => failAt start none [] (some m) false

/-- Reads the lines of a document; `fuel` bounds the lines and the steps of
reading each. -/
def lines : Nat → Builder → Reader Builder
  | 0, b => pure b
  | fuel + 1, b => do
    match ← ahead with
    | [] => pure b
    | '#' :: _ =>
      let _ ← comment?
      if ← lineEnd? then pure () else refuse none []
      blanks
      lines fuel b
    | '[' :: _ =>
      let b ← header b
      blanks
      lines fuel b
    | '\n' :: _ =>
      bump
      blanks
      lines fuel b
    | '\r' :: '\n' :: _ =>
      skip 2
      blanks
      lines fuel b
    | '\r' :: _ => refuse none []
    | _ =>
      let b ← pairLine fuel b
      blanks
      lines fuel b

end Reader

namespace Tree

/-- Reads a document: its root table, or the first refusal. -/
def parse (text : String) : Except Fault Tree :=
  let cs := text.toList
  let fuel := cs.length + 2
  let run : Reader Builder := do
    if (← Reader.peek) = some '\uFEFF' then Reader.bump
    Reader.blanks
    Reader.lines fuel Builder.empty
  match run.run ⟨cs, 0⟩ with
  | .error f => .error f
  | .ok (b, c) =>
    match b.finish with
    | .ok b => .ok (.table .header b.root none)
    | .error m => .error ⟨c.offset, none, [], some m, false⟩

end Tree

end LotBridge.Toml
