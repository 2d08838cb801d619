import TriggerLogic.Text.Basic

namespace TriggerLogic.Blake3

abbrev Chain := Vector UInt32 8

abbrev Block := Vector UInt32 16

def startChain : Chain :=
  #v[0x6A09E667, 0xBB67AE85, 0x3C6EF372, 0xA54FF53A, 0x510E527F, 0x9B05688C, 0x1F83D9AB, 0x5BE0CD19]

def chunkStartFlag : UInt32 := 1
def chunkEndFlag : UInt32 := 2
def parentFlag : UInt32 := 4
def rootFlag : UInt32 := 8

def nextRound : Vector (Fin 16) 16 :=
  #v[2, 6, 3, 10, 7, 0, 4, 13, 1, 11, 12, 5, 9, 14, 15, 8]

def rotateRight (word count : UInt32) : UInt32 :=
  (word >>> count) ||| (word <<< (32 - count))

def mix (state : Block) (a b c d : Fin 16) (x y : UInt32) : Block :=
  let a1 := state[a] + state[b] + x
  let d1 := rotateRight (state[d] ^^^ a1) 16
  let c1 := state[c] + d1
  let b1 := rotateRight (state[b] ^^^ c1) 12
  let a2 := a1 + b1 + y
  let d2 := rotateRight (d1 ^^^ a2) 8
  let c2 := c1 + d2
  let b2 := rotateRight (b1 ^^^ c2) 7
  (((state.set a a2).set b b2).set c c2).set d d2

def mixRound (state message : Block) : Block :=
  let state := mix state 0 4 8 12 message[0] message[1]
  let state := mix state 1 5 9 13 message[2] message[3]
  let state := mix state 2 6 10 14 message[4] message[5]
  let state := mix state 3 7 11 15 message[6] message[7]
  let state := mix state 0 5 10 15 message[8] message[9]
  let state := mix state 1 6 11 12 message[10] message[11]
  let state := mix state 2 7 8 13 message[12] message[13]
  mix state 3 4 9 14 message[14] message[15]

def permute (message : Block) : Block :=
  nextRound.map fun place => message[place]

def mixRounds : Nat → Block → Block → Block
  | 0, state, _ => state
  | count + 1, state, message => mixRounds count (mixRound state message) (permute message)

structure Node where
  chain : Chain
  message : Block
  counter : UInt64
  length : UInt32
  flags : UInt32

def Node.compress (node : Node) (flags : UInt32) : Chain :=
  let tail : Vector UInt32 8 :=
    #v[0x6A09E667, 0xBB67AE85, 0x3C6EF372, 0xA54FF53A, node.counter.toUInt32,
      (node.counter >>> 32).toUInt32, node.length, node.flags ||| flags]
  let state := mixRounds 7 (node.chain ++ tail) node.message
  Vector.ofFn fun place : Fin 8 => state[place.val] ^^^ state[place.val + 8]

def wordOfBytes (bytes : List UInt8) : UInt32 :=
  bytes.foldr (fun byte word => word <<< 8 ||| byte.toUInt32) 0

def messageOfBytes (bytes : List UInt8) : Block :=
  Vector.ofFn fun place : Fin 16 => wordOfBytes ((bytes.drop (4 * place.val)).take 4)

def parts (size : Nat) (bytes : List UInt8) : List (List UInt8) :=
  (List.range (max 1 ((bytes.length + size - 1) / size))).map fun place =>
    (bytes.drop (size * place)).take size

/-- Chains the blocks of a chunk up to the last one, which is left waiting. -/
def chunkNode (counter : UInt64) : Chain → UInt32 → List (List UInt8) → Node
  | chain, flags, [] => ⟨chain, messageOfBytes [], counter, 0, flags ||| chunkEndFlag⟩
  | chain, flags, [last] =>
    ⟨chain, messageOfBytes last, counter, last.length.toUInt32, flags ||| chunkEndFlag⟩
  | chain, flags, block :: more =>
    chunkNode counter (Node.compress ⟨chain, messageOfBytes block, counter, 64, flags⟩ 0) 0 more

def parentNode (left right : Node) : Node :=
  ⟨startChain, left.compress 0 ++ right.compress 0, 0, 64, parentFlag⟩

/-- Joins neighbours in pairs; a last node without a partner moves up as it is. -/
def joinPairs : List Node → List Node
  | left :: right :: more => parentNode left right :: joinPairs more
  | nodes => nodes

theorem length_joinPairs_le (nodes : List Node) : (joinPairs nodes).length ≤ nodes.length := by
  fun_induction joinPairs nodes with
  | case1 left right more ih => simp only [List.length_cons]; omega
  | case2 nodes short => exact Nat.le_refl _

def joinAll (first : Node) : List Node → Node
  | [] => first
  | second :: more => joinAll (parentNode first second) (joinPairs more)
termination_by nodes => nodes.length
decreasing_by
  have shorter := length_joinPairs_le more
  simp only [List.length_cons]
  omega

def rootNode (bytes : List UInt8) : Node :=
  let chunks := (parts 1024 bytes).zipIdx.map fun entry =>
    chunkNode entry.2.toUInt64 startChain chunkStartFlag (parts 64 entry.1)
  match chunks with
  | [] => chunkNode 0 startChain chunkStartFlag []
  | first :: more => joinAll first more

def bytesOfWord (word : UInt32) : List UInt8 :=
  [word.toUInt8, (word >>> 8).toUInt8, (word >>> 16).toUInt8, (word >>> 24).toUInt8]

def digest (bytes : List UInt8) : List UInt8 :=
  ((rootNode bytes).compress rootFlag).toList.flatMap bytesOfWord

def hexByte (byte : UInt8) : Text :=
  [Nat.digitChar (byte.toNat / 16), Nat.digitChar (byte.toNat % 16)]

def hexDigest (text : Text) : Text :=
  (digest (Text.bytes text)).flatMap hexByte

end TriggerLogic.Blake3
