import LoxLang.Text

namespace LoxLang.Digest

/-- The key, eight bytes to a number, the lowest first. -/
def keyWords : List UInt64 :=
  [0xbe4ba423396cfeb8, 0x1cad21f72c81017c, 0xdb979083e96dd4de, 0x1f67b3b7a4a44072,
    0x78e5c0cc4ee679cb, 0x2172ffcc7dd05a82, 0x8e2443f7744608b8, 0x4c263a81e69035e0,
    0xcb00c391bb52283c, 0xa32e531b8b65d088, 0x4ef90da297486471, 0xd8acdea946ef1938,
    0x3f349ce33f76faa8, 0x1d4f0bc7c7bbdcf9, 0x3159b4cd4be0518a, 0x647378d9c97e9fc8,
    0xc3ebd33483acc5ea, 0xeb6313faffa081c5, 0x49daf0b751dd0d17, 0x9e68d429265516d3,
    0xfca1477d58be162b, 0xce31d07ad1b8f88f, 0x280416958f3acb45, 0x7e404bbbcafbd7af]

def bytesOf (w : UInt64) : List UInt8 :=
  (List.range 8).map fun i => (w >>> (8 * i).toUInt64).toUInt8

def key : Array UInt8 := (keyWords.flatMap bytesOf).toArray

/-- Odd numbers that spread bits, five of 64 bits and three of 32. -/
def prime1 : UInt64 := 0x9E3779B185EBCA87
def prime2 : UInt64 := 0xC2B2AE3D27D4EB4F
def prime3 : UInt64 := 0x165667B19E3779F9
def prime4 : UInt64 := 0x85EBCA77C2B2AE63
def prime5 : UInt64 := 0x27D4EB2F165667C5
def small1 : UInt64 := 0x9E3779B1
def small2 : UInt64 := 0x85EBCA77
def small3 : UInt64 := 0xC2B2AE3D

def number (width : Nat) (bytes : Array UInt8) (place : Nat) : UInt64 :=
  (List.range width).foldr (fun i n => n <<< 8 ||| (bytes.getD (place + i) 0).toUInt64) 0

def word : Array UInt8 → Nat → UInt64 := number 8

def fold (a b : UInt64) : UInt64 :=
  let product := a.toNat * b.toNat
  product.toUInt64 ^^^ (product / Nat.pow 2 64).toUInt64

def rotate (w n : UInt64) : UInt64 := (w <<< n) ||| (w >>> (64 - n))

def swap (w : UInt64) : UInt64 := (bytesOf w).foldl (fun n b => n <<< 8 ||| b.toUInt64) 0

def spread (w : UInt64) : UInt64 :=
  let w := (w ^^^ (w >>> 37)) * 0x165667919E3779F9
  w ^^^ (w >>> 32)

def spreadShort (w : UInt64) : UInt64 :=
  let w := (w ^^^ (w >>> 33)) * prime2
  let w := (w ^^^ (w >>> 29)) * prime3
  w ^^^ (w >>> 32)

def mix (t : Array UInt8) (place keyPlace : Nat) : UInt64 :=
  fold (word t place ^^^ word key keyPlace) (word t (place + 8) ^^^ word key (keyPlace + 8))

def ofThree (t : Array UInt8) : UInt64 :=
  let n := t.size
  let nth (i : Nat) : UInt64 := (t.getD i 0).toUInt64
  let packed := (nth 0 <<< 16) ||| (nth (n / 2) <<< 24) ||| nth (n - 1) ||| (n.toUInt64 <<< 8)
  spreadShort (packed ^^^ number 4 key 0 ^^^ number 4 key 4)

def ofEight (t : Array UInt8) : UInt64 :=
  let n := t.size
  let w := number 4 t (n - 4) + (number 4 t 0 <<< 32)
  let w := w ^^^ word key 8 ^^^ word key 16
  let w := (w ^^^ rotate w 49 ^^^ rotate w 24) * 0x9FB21C651E98DF25
  let w := (w ^^^ ((w >>> 35) + n.toUInt64)) * 0x9FB21C651E98DF25
  w ^^^ (w >>> 28)

def ofSixteen (t : Array UInt8) : UInt64 :=
  let n := t.size
  let low := word t 0 ^^^ word key 24 ^^^ word key 32
  let high := word t (n - 8) ^^^ word key 40 ^^^ word key 48
  spread (n.toUInt64 + swap low + high + fold low high)

/-- Seventeen to 128 bytes: pairs of sixteen from both ends towards the middle. -/
def ofPairs (t : Array UInt8) : UInt64 :=
  let n := t.size
  let pairs := (List.range ((n - 1) / 32 + 1)).map fun i =>
    mix t (16 * i) (32 * i) + mix t (n - 16 * (i + 1)) (32 * i + 16)
  spread (pairs.foldl (· + ·) (n.toUInt64 * prime1))

/-- Up to 240 bytes: eight times sixteen, then the rest against the key three bytes further on. -/
def ofSixteens (t : Array UInt8) : UInt64 :=
  let n := t.size
  let first := (List.range 8).foldl (fun sum i => sum + mix t (16 * i) (16 * i))
    (n.toUInt64 * prime1)
  let rest := (List.range (n / 16 - 8)).foldl
    (fun sum i => sum + mix t (16 * (i + 8)) (16 * i + 3)) (spread first)
  spread (rest + mix t (n - 16) 119)

def sums : List UInt64 := [small3, prime1, prime2, prime3, prime4, small2, prime5, small1]

/-- Adds two lanes of a stripe to two sums; each lane is also added to the sum beside it. -/
def addLanes (t : Array UInt8) (place keyPlace : Nat) : List UInt64 → List UInt64
  | a :: b :: rest =>
    let product (w k : UInt64) : UInt64 := (w ^^^ k).toUInt32.toUInt64 * ((w ^^^ k) >>> 32)
    let v := word t place
    let w := word t (place + 8)
    (a + w + product v (word key keyPlace)) :: (b + v + product w (word key (keyPlace + 8))) ::
      addLanes t (place + 16) (keyPlace + 16) rest
  | rest => rest

/-- Adds some stripes in a row, each against the key eight bytes further on. -/
def addStripes (t : Array UInt8) (place count : Nat) (sums : List UInt64) : List UInt64 :=
  (List.range count).foldl (fun sums i => addLanes t (place + 64 * i) (8 * i) sums) sums

def scramble (sums : List UInt64) : List UInt64 :=
  (List.zip sums (List.range 8)).map fun (a, i) =>
    (a ^^^ (a >>> 47) ^^^ word key (128 + 8 * i)) * small1

def merge (keyPlace : Nat) (start : UInt64) : List UInt64 → UInt64
  | a :: b :: rest =>
    merge (keyPlace + 16) (start + fold (a ^^^ word key keyPlace) (b ^^^ word key (keyPlace + 8)))
      rest
  | _ => spread start

/-- More than 240 bytes: blocks of sixteen stripes, the stripes that are left, and the last 64
bytes. -/
def ofStripes (t : Array UInt8) : UInt64 :=
  let n := t.size
  let blocks := (n - 1) / 1024
  let whole := (List.range blocks).foldl
    (fun sums i => scramble (addStripes t (1024 * i) 16 sums)) sums
  let rest := addStripes t (1024 * blocks) ((n - 1 - 1024 * blocks) / 64) whole
  merge 11 (n.toUInt64 * prime1) (addLanes t (n - 64) 121 rest)

def ofBytes (t : Array UInt8) : UInt64 :=
  let n := t.size
  if n = 0 then spreadShort (word key 56 ^^^ word key 64)
  else if n ≤ 3 then ofThree t
  else if n ≤ 8 then ofEight t
  else if n ≤ 16 then ofSixteen t
  else if n ≤ 128 then ofPairs t
  else if n ≤ 240 then ofSixteens t
  else ofStripes t

end LoxLang.Digest

namespace LoxLang.Text

def digest (t : Text) : UInt64 := Digest.ofBytes t.toArray

end LoxLang.Text
