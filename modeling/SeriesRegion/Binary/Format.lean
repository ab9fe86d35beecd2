import SeriesRegion.Text.Utf8
import SeriesRegion.SortedMap

/-!
# Binary formats

A `Format` holds the two directions of a binary layout side by side: the bytes written for a value, and a reader that
takes a value off the front of a byte string.  Numbers have a fixed width and come lowest byte first; texts and lists
are preceded by their length in eight bytes; an optional value by a byte that says whether it is there.  What follows a
value is left unread.
-/

namespace SeriesRegion.Binary

inductive Fault where
  /-- The bytes end inside an item of fixed size. -/
  | truncated
  /-- The bytes end inside a text. -/
  | truncatedText
  /-- A variant number that is not below the number of variants. -/
  | variant (found : UInt32) (count : Nat)
  /-- A truth value other than 0 and 1. -/
  | boolean (found : UInt8)
  /-- A presence byte other than 0 and 1. -/
  | presence (found : UInt8)
  /-- A text that is not UTF-8. -/
  | text (fault : Utf8.Fault)
  deriving DecidableEq, Repr

def Fault.message : Fault → String
  | .truncated => "io error: unexpected end of file"
  | .truncatedText => "io error: "
  | .variant n count =>
    "invalid value: integer `" ++ toString n.toNat ++ "`, expected variant index 0 <= i < " ++ toString count
  | .boolean n => s!"invalid u8 while decoding bool, expected 0 or 1, found {n.toNat}"
  | .presence n => s!"tag for enum is not valid, found {n.toNat}"
  | .text f => "string is not valid utf8: " ++ f.message

/-- Takes a value off the front of a byte string. -/
abbrev Reader (α : Type) := Bytes → Except Fault (α × Bytes)

namespace Reader

def pure {α : Type} (a : α) : Reader α := fun bs => .ok (a, bs)

def bind {α β : Type} (r : Reader α) (f : α → Reader β) : Reader β := fun bs =>
  match r bs with
  | .ok (a, rest) => f a rest
  | .error e => .error e

def fail {α : Type} (e : Fault) : Reader α := fun _ => .error e

def map {α β : Type} (f : α → β) (r : Reader α) : Reader β := r.bind fun a => .pure (f a)

def take (n : Nat) (short : Fault) : Reader Bytes := fun bs =>
  let taken := bs.take n
  if taken.length < n then .error short else .ok (taken, bs.drop n)

/-- Reads `n` values in a row; `done` holds those before them, the last first. -/
def replicateOnto {α : Type} (r : Reader α) (done : List α) : (n : Nat) → Bytes → Except Fault (List α × Bytes)
  | 0, bs => .ok (done.reverse, bs)
  | n + 1, bs =>
    match r bs with
    | .ok (a, rest) => replicateOnto r (a :: done) n rest
    | .error e => .error e

def replicate {α : Type} (r : Reader α) (n : Nat) : Reader (List α) := fun bs => replicateOnto r [] n bs

theorem replicateOnto_eq {α : Type} (r : Reader α) (done : List α) (n : Nat) (bs : Bytes) :
    replicateOnto r done n bs = ((replicate r n).map (done.reverse ++ ·)) bs := by
  induction n generalizing done bs with
  | zero => simp [replicate, replicateOnto, map, bind, pure]
  | succ n ih =>
    simp only [replicate, replicateOnto, map, bind]
    cases r bs with
    | error e => rfl
    | ok p =>
      obtain ⟨a, rest⟩ := p
      simp only [ih (a :: done), ih [a], map, bind, pure]
      cases replicate r n rest <;> simp

@[simp] theorem replicate_zero {α : Type} (r : Reader α) : replicate r 0 = pure [] := rfl

theorem replicate_succ {α : Type} (r : Reader α) (n : Nat) :
    replicate r (n + 1) = r.bind fun a => (replicate r n).map (a :: ·) := by
  funext bs
  simp only [replicate, replicateOnto, bind]
  cases r bs with
  | error e => rfl
  | ok p => exact replicateOnto_eq r [p.1] n p.2

end Reader

/-- A binary layout: how values are written and read. -/
structure Format (α : Type) where
  write : α → Bytes
  read : Reader α

namespace Format

/-- A number of `width` bytes. -/
def number (width : Nat) : Format Nat where
  write n := littleEndian width n
  read := (Reader.take width .truncated).map ofLittleEndian

/-- Presents a layout under other values. -/
def imap {α β : Type} (f : Format α) (there : α → β) (back : β → α) : Format β where
  write b := f.write (back b)
  read := f.read.map there

def word8 : Format UInt8 := (number 1).imap UInt8.ofNat UInt8.toNat

def word32 : Format UInt32 := (number 4).imap UInt32.ofNat UInt32.toNat

def word64 : Format UInt64 := (number 8).imap UInt64.ofNat UInt64.toNat

def int32 : Format Int32 := word32.imap UInt32.toInt32 Int32.toUInt32

def int64 : Format Int64 := word64.imap UInt64.toInt64 Int64.toUInt64

def length : Format Nat := number 8

/-- A truth value: one byte, 0 or 1. -/
def boolean : Format Bool where
  write b := word8.write (if b then 1 else 0)
  read := word8.read.bind fun n =>
    if n = 0 then .pure false else if n = 1 then .pure true else .fail (.boolean n)

/-- A text: its length in bytes, then the bytes. -/
def text : Format String where
  write s := length.write (Bytes.ofText s).length ++ Bytes.ofText s
  read := length.read.bind fun n => (Reader.take n .truncatedText).bind fun bs =>
    match Utf8.decode bs with
    | .ok s => .pure s
    | .error e => .fail (.text e)

def pair {α β : Type} (f : Format α) (g : Format β) : Format (α × β) where
  write p := f.write p.1 ++ g.write p.2
  read := f.read.bind fun a => g.read.map fun b => (a, b)

/-- A list: its length, then its items. -/
def list {α : Type} (f : Format α) : Format (List α) where
  write as := length.write as.length ++ as.flatMap f.write
  read := length.read.bind f.read.replicate

/-- An optional value: a byte 0, or a byte 1 and the value. -/
def option {α : Type} (f : Format α) : Format (Option α) where
  write
    | none => word8.write 0
    | some a => word8.write 1 ++ f.write a
  read := word8.read.bind fun n =>
    if n = 0 then .pure none else if n = 1 then f.read.map some else .fail (.presence n)

/-- A map: the list of its pairs, written by ascending key.  Pairs may be read in any order, and of several pairs with
one key the last counts. -/
def map {κ ν : Type} [Ord κ] [Std.TransOrd κ] [Std.LawfulEqOrd κ] (k : Format κ) (v : Format ν) :
    Format (SortedMap κ ν) :=
  (k.pair v).list.imap SortedMap.ofList SortedMap.entries

/-- A value of one of `count` kinds: the number of the kind, then what `write` and `read` say of it. -/
def variants {α : Type} (count : Nat) (write : α → UInt32 × Bytes) (read : UInt32 → Option (Reader α)) :
    Format α where
  write a := word32.write (write a).1 ++ (write a).2
  read := word32.read.bind fun n =>
    match read n with
    | some r => r
    | none => .fail (.variant n count)

/-- Reads a value off the front and leaves the rest. -/
def decode {α : Type} (f : Format α) (bs : Bytes) : Except Fault α :=
  match f.read bs with
  | .ok (a, _) => .ok a
  | .error e => .error e

end Format

end SeriesRegion.Binary
