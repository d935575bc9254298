import Xenlib.DomCreate
import Xenlib.LocalReads

/-!
`xss_read` and the calls on top of it, which take what it leaves in their buffer for a string.
It copies with `strncpy`, and `xs_read_timeout` with `strlcpy`.
-/

set_option autoImplicit false

namespace Xenlib

open Keyed Wp

/-- All of the `len` bytes are written, and the rest after the string is filled with NULs. -/
def strncpy (dst : Bytes) (src : CString) (len : Nat) : Bytes :=
  memcpy dst 0 ((textBytes src).take len ++ List.replicate (len - src.length) 0)

/-- `xss_read` with the buffer of its caller. -/
def xssReadInto (path : CString) (value : Bytes) (len : Nat) : SrvM (Option Errno × Bytes) := do
  let s ← get
  match ← alloc (keyToEntryCheckPerm s.root path 0 .read) with
  | none => pure (some .enoent, value)
  | some entry =>
    match entry.entry.label.value with
    | some v => pure (none, strncpy value v len)
    | none => pure (none, memcpy value 0 [0])

/-- The text of a block after the white space and the sign `atoi` skips. -/
def atoiNumber (text : CString) : CString :=
  let body := text.dropWhile isSpace
  if body.head?.any fun c => c.val = 45 || c.val = 43 then body.drop 1 else body

/-- `(int)strtol(mem, NULL, 10)`, which reads up to the first character that ends the number. A
number of fewer than 19 digits does not saturate. -/
def atoi (mem : Bytes) : Except Fault Int :=
  let number := atoiNumber (strHead mem)
  if 0 ∉ mem ∧ number.dropWhile isDigit = [] then .error .outOfBounds
  else
    let n : Int := digitsValue (number.takeWhile isDigit)
    let negative := ((strHead mem).dropWhile isSpace).head?.any fun c => c.val = 45
    .ok ((if negative then -n else n).bmod (2 ^ 32))

def int32MaxStrLen : Nat := 12

def xssReadInteger (path : CString) : SrvM (Option Errno × Option Int) := do
  let (rc, ns) ← xssReadInto path (List.replicate int32MaxStrLen 0) int32MaxStrLen
  match rc with
  | some e => pure (some e, none)
  | none =>
    let value ← Wp.lift (atoi ns)
    pure (none, some value)

def domainNamePath (domain : UInt16) : CString :=
  renderPath [cstr "local", cstr "domain", decimal domain.toNat, cstr "name"]

def getDomainName (domain : UInt16) (name : Bytes) (len : Nat) : SrvM (Option Errno × Bytes) :=
  xssReadInto (domainNamePath domain) name len

theorem zero_not_mem_textBytes (v : CString) : (0 : UInt8) ∉ textBytes v := by
  intro h
  obtain ⟨c, -, hc⟩ := List.mem_map.mp h
  exact c.property hc

theorem textBytes_take (v : CString) (n : Nat) : (textBytes v).take n = textBytes (v.take n) :=
  List.map_take.symm

theorem readStr_textBytes (v : CString) : readStr (textBytes v) = .error .outOfBounds := by
  cases hr : readStr (textBytes v) with
  | error e => rw [readStr_fault hr]
  | ok t =>
    obtain ⟨tail, ht⟩ := readStr_ok hr
    exact absurd (by rw [ht]; simp [strBytes]) (zero_not_mem_textBytes v)

theorem strncpy_full {buf : Bytes} {v : CString} (h : buf.length ≤ v.length) :
    strncpy buf v buf.length = textBytes (v.take buf.length) := by
  have hlen : ((textBytes v).take buf.length).length = buf.length := by
    rw [List.length_take, textBytes_length]
    omega
  rw [strncpy, memcpy_start, Nat.sub_eq_zero_of_le h, List.replicate_zero, List.append_nil, hlen,
    List.drop_length, List.append_nil, textBytes_take]

theorem strncpy_short {buf : Bytes} {v : CString} (h : v.length < buf.length) :
    ∃ tail, strncpy buf v buf.length = strBytes v ++ tail := by
  have hpad : List.replicate (buf.length - v.length) (0 : UInt8) =
      0 :: List.replicate (buf.length - v.length - 1) 0 := by
    rw [← List.replicate_succ]
    congr 1
    omega
  rw [strncpy, memcpy_start, List.take_of_length_le (by rw [textBytes_length]; omega), hpad]
  refine ⟨List.replicate (buf.length - v.length - 1) 0 ++
    buf.drop (textBytes v ++ 0 :: List.replicate (buf.length - v.length - 1) 0).length, ?_⟩
  simp [strBytes, textBytes]

theorem readStr_strncpy {buf : Bytes} {v : CString} :
    readStr (strncpy buf v buf.length) =
      if v.length < buf.length then .ok v else .error .outOfBounds := by
  split
  · rename_i hlt
    obtain ⟨tail, htail⟩ := strncpy_short hlt
    rw [htail, readStr_strBytes]
  · rename_i hge
    rw [strncpy_full (by omega), readStr_textBytes]

theorem readStr_strlcpy {buf : Bytes} {v : CString} {len : Nat} :
    readStr (strlcpy buf v len) = .ok (v.take (len - 1)) := by
  rw [strlcpy, memcpy_start]
  exact readStr_strBytes _ _

/-- White space, perhaps a sign, and digits, as far as the text goes. -/
structure NumberOnly (text blanks sign digits : CString) : Prop where
  text : text = blanks ++ (sign ++ digits)
  blanks : ∀ c ∈ blanks, isSpace c = true
  sign : sign = [] ∨ sign = [plusSign] ∨ sign = [minusSign]
  digits : ∀ c ∈ digits, isDigit c = true

/-- `atoi` finds no end of the number in the text. -/
def RunsOff (text : CString) : Prop := ∃ blanks sign digits, NumberOnly text blanks sign digits

theorem atoiNumber_sign {c : CChar} (h : c = plusSign ∨ c = minusSign) (blanks rest : CString)
    (hb : ∀ c ∈ blanks, isSpace c = true) : atoiNumber (blanks ++ ([c] ++ rest)) = rest := by
  have hspace : isSpace c = false := by rcases h with rfl | rfl <;> decide
  have hsign : (c.val = 45 || c.val = 43) = true := by rcases h with rfl | rfl <;> decide
  unfold atoiNumber
  rw [dropWhile_blanks hb (by simpa using hspace)]
  simp [hsign]

theorem atoiNumber_digits {blanks digits : CString} (hb : ∀ c ∈ blanks, isSpace c = true)
    (hd : ∀ c ∈ digits, isDigit c = true) : atoiNumber (blanks ++ digits) = digits := by
  unfold atoiNumber
  cases digits with
  | nil => rw [dropWhile_blanks hb (by simp)]; rfl
  | cons d ds =>
    have hdigit := hd d List.mem_cons_self
    obtain ⟨hminus, hplus⟩ := isDigit_not_sign hdigit
    rw [dropWhile_blanks hb (by simpa using isDigit_not_space hdigit)]
    simp [hminus, hplus]

theorem runsOff_iff (text : CString) :
    (atoiNumber text).dropWhile isDigit = [] ↔ RunsOff text := by
  constructor
  · intro h
    have hall := List.dropWhile_eq_nil_iff.mp h
    have hsplit := (List.takeWhile_append_dropWhile (p := isSpace) (l := text)).symm
    have hblanks : ∀ c ∈ text.takeWhile isSpace, isSpace c = true :=
      fun c hc => List.mem_takeWhile_imp hc
    simp only [atoiNumber] at hall
    split at hall
    · rename_i hsign
      cases hbody : text.dropWhile isSpace with
      | nil => simp [hbody] at hsign
      | cons c rest =>
        rw [hbody] at hall hsign hsplit
        refine ⟨text.takeWhile isSpace, [c], rest, hsplit, hblanks, Or.inr ?_, by simpa using hall⟩
        have hc : c.val = 45 ∨ c.val = 43 := by simpa using hsign
        rcases hc with hc | hc
        · exact Or.inr (congrArg (fun c => [c]) (Subtype.ext hc))
        · exact Or.inl (congrArg (fun c => [c]) (Subtype.ext hc))
    · exact ⟨text.takeWhile isSpace, [], text.dropWhile isSpace, hsplit, hblanks, Or.inl rfl, hall⟩
  · rintro ⟨blanks, sign, digits, rfl, hblanks, hsign, hdigits⟩
    refine List.dropWhile_eq_nil_iff.mpr ?_
    rcases hsign with rfl | rfl | rfl
    · rw [List.nil_append, atoiNumber_digits hblanks hdigits]
      exact hdigits
    · rw [atoiNumber_sign (Or.inl rfl) blanks digits hblanks]
      exact hdigits
    · rw [atoiNumber_sign (Or.inr rfl) blanks digits hblanks]
      exact hdigits

section Runs
variable {s : Shared} {path : CString} {e : EntryRef}

/-- What `xss_read` leaves for an entry. -/
def readInto (entry : XsEntry) (value : Bytes) (len : Nat) : Bytes :=
  match entry.label.value with
  | some v => strncpy value v len
  | none => memcpy value 0 [0]

theorem wp_xssReadInto (hf : foundEntry s.root path = some e) (hmem : false ∉ s.allocs)
    (value : Bytes) (len : Nat) {Q : Option Errno × Bytes → Shared → Prop} {E : Fault → Prop}
    (h : ∀ rest, Q (none, readInto e.entry value len) { s with allocs := rest }) :
    wp (xssReadInto path value len) Q E s := by
  unfold xssReadInto
  simp only [wp_bind, wp_get, wp_alloc]
  refine wp_keyToEntryCheckPerm_dom0 hf hmem fun rest _ => ?_
  unfold readInto at h
  cases hv : e.entry.label.value with
  | none =>
    simp only [hv] at h ⊢
    exact h rest
  | some v =>
    simp only [hv] at h ⊢
    exact h rest

theorem readStr_readInto (entry : XsEntry) {buf : Bytes} (hpos : buf ≠ []) :
    readStr (readInto entry buf buf.length) =
      if (entryValue entry).length < buf.length then .ok (entryValue entry)
      else .error .outOfBounds := by
  unfold readInto entryValue
  cases entry.label.value with
  | none =>
    have hlt : ((none : Option CString).getD []).length < buf.length := List.length_pos_iff.mpr hpos
    rw [if_pos hlt]
    show readStr (memcpy buf 0 [0]) = _
    rw [memcpy_start]
    exact readStr_strBytes [] _
  | some v => exact readStr_strncpy

/-- Both calls succeed and leave the same string, the longest start of the value that fits. -/
def ReadsAgree (s : Shared) (path value : CString) (buf : Bytes) (tout : Deadline) : Prop :=
  ∃ r s₁ s₂ b₁ b₂, xssReadInto path buf buf.length s = .ok ((none, b₁), s₁) ∧
    xsReadTimeout (some path) (some buf) buf.length 0 tout s = .ok ((.ok r, some b₂), s₂) ∧
    readStr b₁ = .ok (value.take (buf.length - 1)) ∧
    readStr b₂ = .ok (value.take (buf.length - 1))

/-- The buffer of the caller holds a string after the call. -/
def LeavesString (call : SrvM (Option Errno × Bytes)) (s : Shared) : Prop :=
  ∃ buf s' text, call s = .ok ((none, buf), s') ∧ readStr buf = .ok text

theorem leavesString_iff (hf : foundEntry s.root path = some e) (hmem : false ∉ s.allocs)
    {buf : Bytes} (hpos : buf ≠ []) :
    LeavesString (xssReadInto path buf buf.length) s ↔
      (entryValue e.entry).length < buf.length := by
  obtain ⟨r, s', hrun, rfl⟩ := wp_total (@wp_xssReadInto s path e hf hmem buf buf.length
    (fun r _ => r = (none, readInto e.entry buf buf.length)) _ fun _ => rfl)
  constructor
  · rintro ⟨b, s₁, text, hrun', htext⟩
    rw [hrun] at hrun'
    cases hrun'
    rw [readStr_readInto e.entry hpos] at htext
    by_contra hge
    rw [if_neg hge] at htext
    cases htext
  · intro hlt
    exact ⟨_, _, _, hrun, by rw [readStr_readInto e.entry hpos, if_pos hlt]⟩

theorem readsAgree_iff (hpath : resolvePath path 0 = .ok path)
    (hf : foundEntry s.root path = some e) (hg : Granted s) {buf : Bytes} (hpos : buf ≠ [])
    (tout : Deadline) :
    ReadsAgree s path (entryValue e.entry) buf tout ↔
      (entryValue e.entry).length < buf.length := by
  constructor
  · rintro ⟨r, s₁, s₂, b₁, b₂, hrun, -, htext, -⟩
    exact (leavesString_iff hf hg.allocs hpos).mp ⟨b₁, s₁, _, hrun, htext⟩
  · intro hlt
    obtain ⟨b₁, s₁, text, hrun, htext⟩ := (leavesString_iff hf hg.allocs hpos).mpr hlt
    obtain ⟨s₂, hrun₂⟩ := @xsGetWith_run s path path e UInt8
      (fun entry => (entryValue entry).length)
      (fun entry len buf => strlcpy buf (entryValue entry) len)
      hg hpath hf (some buf) buf.length (fun _ => rfl) tout
    rw [if_pos (List.length_pos_iff.mpr hpos)] at hrun₂
    have hsame := wp_ok (@wp_xssReadInto s path e hf hg.allocs buf buf.length
      (fun r _ => r = (none, readInto e.entry buf buf.length)) (fun _ => True) fun _ => rfl) hrun
    cases hsame
    refine ⟨_, s₁, s₂, _, _, hrun, hrun₂, ?_, readStr_strlcpy⟩
    rw [readStr_readInto e.entry hpos, if_pos hlt, List.take_of_length_le (by omega)]

/-- The call reads no byte behind its buffer. -/
def StaysInside (call : SrvM (Option Errno × Option Int)) (s : Shared) : Prop :=
  ∃ r s', call s = .ok (r, s')

theorem atoi_fault {mem : Bytes} :
    (∃ n, atoi mem = .ok n) ↔ 0 ∈ mem ∨ ¬ RunsOff (strHead mem) := by
  rw [← runsOff_iff]
  unfold atoi
  by_cases hz : (0 : UInt8) ∈ mem <;>
    by_cases hr : (atoiNumber (strHead mem)).dropWhile isDigit = [] <;> simp [hz, hr]

theorem readInteger_iff (hf : foundEntry s.root path = some e) (hmem : false ∉ s.allocs) :
    StaysInside (xssReadInteger path) s ↔ (entryValue e.entry).length < int32MaxStrLen ∨
      ¬ RunsOff ((entryValue e.entry).take int32MaxStrLen) := by
  generalize hns : readInto e.entry (List.replicate int32MaxStrLen 0) int32MaxStrLen = ns
  have hrun : wp (xssReadInteger path) (fun _ _ => ∃ n, atoi ns = .ok n)
      (fun _ => ¬ ∃ n, atoi ns = .ok n) s := by
    unfold xssReadInteger
    rw [wp_bind]
    refine wp_xssReadInto hf hmem _ _ fun rest => ?_
    rw [hns, wp_bind]
    refine wp_lift (fun n hn => ⟨n, hn⟩) (fun err herr => ?_)
    rintro ⟨n, hn⟩
    rw [hn] at herr
    cases herr
  have hinside : StaysInside (xssReadInteger path) s ↔ ∃ n, atoi ns = .ok n := by
    constructor
    · rintro ⟨r, s', hok⟩
      exact wp_ok hrun hok
    · intro hn
      cases hcall : xssReadInteger path s with
      | ok r => exact ⟨r.1, r.2, hcall⟩
      | error err =>
        have hfault := wp_error hrun hcall
        exact absurd hn hfault
  have hbuf : (List.replicate int32MaxStrLen (0 : UInt8)).length = int32MaxStrLen :=
    List.length_replicate
  rw [hinside, atoi_fault, ← hns]
  unfold readInto entryValue
  cases e.entry.label.value with
  | none => simp [memcpy_start, int32MaxStrLen]
  | some v =>
    rw [Option.getD_some]
    by_cases hlt : v.length < int32MaxStrLen
    · obtain ⟨tail, htail⟩ := strncpy_short (hlt.trans_eq hbuf.symm)
      rw [hbuf] at htail
      simp [htail, strBytes, hlt]
    · have hfull := strncpy_full (hbuf.trans_le (Nat.le_of_not_lt hlt))
      rw [hbuf] at hfull
      simp only [hfull, strHead_textBytes, zero_not_mem_textBytes, hlt, false_or]

/-- `xss_read` and `xs_read_timeout` leave the same terminated string exactly when the value is
shorter than the buffer. So `get_domain_name` gives a string exactly for the names that are shorter
than its buffer, and `xss_read_integer` reads behind its own where a value of twelve characters or
more has no end of a number among the first twelve. -/
theorem localReads_agree_iff (hg : Granted s) :
    (∀ (path : CString) (e : EntryRef) (buf : Bytes) (tout : Deadline),
      resolvePath path 0 = .ok path → foundEntry s.root path = some e → 1 ≤ buf.length →
      (ReadsAgree s path (entryValue e.entry) buf tout ↔
        (entryValue e.entry).length < buf.length)) ∧
    (∀ (domain : UInt16) (e : EntryRef) (name : Bytes),
      foundEntry s.root (domainNamePath domain) = some e → 1 ≤ name.length →
      (LeavesString (getDomainName domain name name.length) s ↔
        (entryValue e.entry).length < name.length)) ∧
    (∀ (path : CString) (e : EntryRef), foundEntry s.root path = some e →
      (StaysInside (xssReadInteger path) s ↔ (entryValue e.entry).length < int32MaxStrLen ∨
        ¬ RunsOff ((entryValue e.entry).take int32MaxStrLen))) := by
  refine ⟨fun path e buf tout hpath hf hpos => ?_, fun domain e name hf hpos => ?_,
    fun path e hf => readInteger_iff hf hg.allocs⟩
  · exact readsAgree_iff hpath hf hg (List.length_pos_iff.mp hpos) tout
  · exact leavesString_iff hf hg.allocs (List.length_pos_iff.mp hpos)

end Runs

/-- Dom0 has written "abc" to "/a". -/
def abcStored : Shared :=
  { Shared.boot 4 with
    root := ⟨⟨none, [⟨0, .none⟩]⟩, .cons (cstr "a") ⟨some (cstr "abc"), [⟨0, .none⟩]⟩ .nil .nil⟩ }

def abcEntry : EntryRef := ⟨[cstr "a"], ⟨⟨some (cstr "abc"), [⟨0, .none⟩]⟩, .nil⟩⟩

theorem localReads_agree_four :
    ReadsAgree abcStored (cstr "/a") (cstr "abc") [1, 1, 1, 1] .timed :=
  ((localReads_agree_iff ⟨List.not_mem_nil, List.not_mem_nil⟩).1 (cstr "/a") abcEntry [1, 1, 1, 1]
    .timed (by decide) (by decide) (by decide)).mpr (by decide)

/-- In three bytes `xss_read` leaves the value without a NUL. -/
theorem three_bytes_unterminated :
    ¬ ∀ (s : Shared) (path : CString) (e : EntryRef) (buf : Bytes) (tout : Deadline), Granted s →
      resolvePath path 0 = .ok path → foundEntry s.root path = some e → 1 ≤ buf.length →
      ReadsAgree s path (entryValue e.entry) buf tout := by
  intro h
  have hg : Granted abcStored := ⟨List.not_mem_nil, List.not_mem_nil⟩
  have hpath : resolvePath (cstr "/a") 0 = .ok (cstr "/a") := by decide
  have hf : foundEntry abcStored.root (cstr "/a") = some abcEntry := by decide
  have hshort := (readsAgree_iff hpath hf hg (List.cons_ne_nil 1 [1, 1]) .timed).mp
    (h abcStored (cstr "/a") abcEntry [1, 1, 1] .timed hg hpath hf (by decide))
  exact absurd hshort (by decide)

end Xenlib
