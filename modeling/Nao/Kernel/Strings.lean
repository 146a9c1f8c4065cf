import Nao.Lib.CString

/-!
# String functions of the kernel

`strcpy`, `strncpy`, `strncmp`, `strcmp`, `strtol`, `mini_snprintf`, `mini_itoa` and `snprintf` of
`kernel.c`. A string that is only read is a list of bytes without its terminator; a destination is an
array of bytes.
-/

namespace Nao.Kernel

open SysLib

/-- The bytes of a string literal. -/
def lit (s : String) : List UInt8 := s.toList.map fun c => UInt8.ofNat c.toNat

/-- `strcpy(dest, src)`. -/
def strcpy (dest : Mem) (src : List UInt8) : Mem := dest.blit 0 (src ++ [0])

/-- `strncpy(dest, src, n)`: pads with zeros up to `n`. -/
def strncpy (dest : Mem) (src : List UInt8) (n : Nat) : Mem :=
  dest.blit 0 (src.take n ++ List.replicate (n - src.length) 0)

/-- `strncmp(s1, s2, n)` from index `i` on; `char` is signed. -/
def strncmpFrom (s1 : Mem) (s2 : List UInt8) (i : Nat) : Nat → Int
  | 0 => 0
  | n + 1 =>
    let a := s1 i
    let b := s2.getD i 0
    if a ≠ b ∨ a = 0 then
      if a.toInt8 < b.toInt8 then -1 else if a.toInt8 > b.toInt8 then 1 else 0
    else strncmpFrom s1 s2 (i + 1) n

def strncmp (s1 : Mem) (s2 : List UInt8) (n : Nat) : Int := strncmpFrom s1 s2 0 n

/-- `strcmp(s1, s2)`: the bytes are cast to `unsigned char` at the end. -/
def strcmp : List UInt8 → List UInt8 → Int
  | [], s2 => 0 - (s2.headD 0).toNat
  | c :: s1, s2 =>
    if c ≠ 0 ∧ c = s2.headD 0 then strcmp s1 s2.tail else c.toNat - (s2.headD 0).toNat

/-- `strtol(nptr, &nptr, 10)` with the `long` read so far: the number and what is left. A sign or
blanks are not read. -/
def strtolFrom (result : BitVec 32) : List UInt8 → BitVec 32 × List UInt8
  | [] => (result, [])
  | c :: nptr =>
    if 0x30 ≤ c ∧ c ≤ 0x39 then strtolFrom (result * 10 + BitVec.ofNat 32 (c.toNat - 0x30)) nptr
    else (result, c :: nptr)

def strtol (nptr : List UInt8) : BitVec 32 × List UInt8 := strtolFrom 0 nptr

-- ---------------------------------------------------------------------------
-- mini_snprintf
-- ---------------------------------------------------------------------------

/-- A variable argument: a string, which may be `NULL`, or a machine word. -/
inductive Arg where
  | str (s : Option (List UInt8))
  | word (w : BitVec 32)

/-- `buf` and `write_idx`. -/
structure Output where
  buf      : Mem
  writeIdx : Nat

/-- `buf[write_idx++] = c`. -/
def Output.put (o : Output) (c : UInt8) : Output :=
  { buf := o.buf.write8 o.writeIdx c, writeIdx := o.writeIdx + 1 }

/-- Characters stored one by one `while (.. && write_idx < (buffer_size - 1))`. -/
def Output.putAll (size : Nat) (o : Output) : List UInt8 → Output
  | [] => o
  | c :: cs => if o.writeIdx < size - 1 then (o.put c).putAll size cs else o

/-- `while (val > 0)`: the digits, lowest first, as `num_scratch` takes them. -/
def scratchDigits : Nat → Nat → List UInt8
  | 0, _ => []
  | slots + 1, val =>
    if val = 0 then [] else UInt8.ofNat (val % 10 + 0x30) :: scratchDigits slots (val / 10)

/-- What `num_scratch[12]` holds for the `long val`. A `long` has 32 bits; nothing is
stored for a negative one. -/
def numScratch (val : Int) : List UInt8 := if val = 0 then [0x30] else scratchDigits 12 val.toNat

/-- One conversion, `%` followed by `k`. -/
def convert (size : Nat) (k : UInt8) (args : List Arg) (o : Output) : Output × List Arg :=
  if k = 0x73 then -- 's'
    match args with
    | .str s :: args => (o.putAll size (s.getD (lit "(null)")), args)
    | args => (o, args)
  else if k = 0x64 then -- 'd'
    match args with
    | .word w :: args =>
      let (o, val) := if w.toInt < 0 then (o.putAll size [0x2D], -w) else (o, w)
      (o.putAll size (numScratch val.toInt).reverse, args)
    | args => (o, args)
  else if k = 0x75 then -- 'u'
    match args with
    | .word w :: args => (o.putAll size (numScratch w.toInt).reverse, args)
    | args => (o, args)
  else (o.put k, args)

/-- `while (*p != '\0' && write_idx < (buffer_size - 1))`. -/
def formatLoop (size : Nat) : List UInt8 → List Arg → Output → Output
  | [], _, o => o
  | c :: p, args, o =>
    if o.writeIdx < size - 1 then
      if c = 0x25 then -- '%'
        match p with
        | [] => o
        | k :: p => formatLoop size p (convert size k args o).2 (convert size k args o).1
      else formatLoop size p args (o.put c)
    else o

/-- `mini_snprintf(buf, size, format, ..)`: the buffer and the result. -/
def miniSnprintf (buf : Mem) (size : Nat) (format : List UInt8) (args : List Arg) : Mem × Nat :=
  if size = 0 then (buf, 0)
  else
    let o := formatLoop size format args { buf := buf, writeIdx := 0 }
    (o.buf.write8 o.writeIdx 0, o.writeIdx)

/-- The string in a local array of `size` bytes that has been printed into. -/
def printed (size : Nat) (format : String) (args : List Arg) : List UInt8 :=
  (miniSnprintf (fun _ => 0) size (lit format) args).1.cstr size

-- ---------------------------------------------------------------------------
-- snprintf
-- ---------------------------------------------------------------------------

/-- `mini_itoa(value, buffer)`: the string in `buffer`. -/
def miniItoa (value : BitVec 32) : List UInt8 :=
  if value = 0 then [0x30] else (scratchDigits 12 value.toNat).reverse

/-- `%` followed by `k` in `snprintf`: the sign of a number is not looked at, and `NULL` is an empty
string. -/
def snprintfConvert (size : Nat) (k : UInt8) (args : List Arg) (o : Output) : Output × List Arg :=
  if k = 0x73 then -- 's'
    match args with
    | .str s :: args => (o.putAll size (s.getD []), args)
    | args => (o, args)
  else if k = 0x64 ∨ k = 0x75 then -- 'd', 'u'
    match args with
    | .word w :: args => (o.putAll size (miniItoa w), args)
    | args => (o, args)
  else (o.put k, args)

/-- `while (*p && buf_idx < (size - 1))`; a `%` at the end of the format is a character. -/
def snprintfLoop (size : Nat) : List UInt8 → List Arg → Output → Output
  | [], _, o => o
  | c :: p, args, o =>
    if o.writeIdx < size - 1 then
      match p with
      | k :: p' =>
        if c = 0x25 then
          snprintfLoop size p' (snprintfConvert size k args o).2 (snprintfConvert size k args o).1
        else snprintfLoop size (k :: p') args (o.put c)
      | [] => o.put c
    else o

/-- `snprintf(buf, size, format, ..)`: the buffer, and `buf_idx` as the `int` that is returned. -/
def snprintf (buf : Mem) (size : Nat) (format : List UInt8) (args : List Arg) : Mem × Int :=
  if size = 0 then (buf, 0)
  else
    let o := snprintfLoop size format args { buf := buf, writeIdx := 0 }
    (o.buf.write8 o.writeIdx 0, (BitVec.ofNat 32 o.writeIdx).toInt)

end Nao.Kernel
