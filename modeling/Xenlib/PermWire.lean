import Mathlib.Data.List.TakeWhile
import Xenlib.Decimal
import Xenlib.HandlersSpec

/-!
Permission lists on the wire: what `serialize_perms` writes, what `xenstore_perm_parse_wire`
reads, and how far the two agree.
-/

set_option autoImplicit false

namespace Xenlib

open Keyed Wp

def plusSign : CChar := ⟨43, by decide⟩
def minusSign : CChar := ⟨45, by decide⟩

/-- A number as ISO C lets `strtoul` read it: white space, perhaps a sign, digits. -/
structure Numeral (text blanks sign digits : CString) : Prop where
  text : text = blanks ++ (sign ++ digits)
  blanks : ∀ c ∈ blanks, isSpace c = true
  sign : sign = [] ∨ sign = [plusSign] ∨ sign = [minusSign]
  ne_nil : digits ≠ []
  digits : ∀ c ∈ digits, isDigit c = true

/-- The value of a numeral; a negative one wraps. -/
def numeralValue (sign digits : CString) : Nat :=
  if sign = [minusSign] then (2 ^ 64 - digitsValue digits) % 2 ^ 64 else digitsValue digits

theorem isDigit_not_space {c : CChar} (h : isDigit c = true) : isSpace c = false := by
  simp only [isDigit, isSpace, Bool.and_eq_true, decide_eq_true_eq, UInt8.le_iff_toNat_le,
    Bool.or_eq_false_iff, decide_eq_false_iff_not, Bool.and_eq_false_iff,
    ← UInt8.toNat_inj, UInt8.reduceToNat] at h ⊢
  omega

theorem isDigit_not_sign {c : CChar} (h : isDigit c = true) : c.val ≠ 45 ∧ c.val ≠ 43 := by
  simp only [isDigit, Bool.and_eq_true, decide_eq_true_eq, UInt8.le_iff_toNat_le, ne_eq,
    ← UInt8.toNat_inj, UInt8.reduceToNat] at h ⊢
  omega

theorem dropWhile_blanks {blanks rest : CString} (h : ∀ c ∈ blanks, isSpace c = true)
    (hrest : ∀ c ∈ rest.head?, isSpace c = false) :
    (blanks ++ rest).dropWhile isSpace = rest := by
  rw [List.dropWhile_append_of_pos h]
  cases rest with
  | nil => rfl
  | cons c rest => rw [List.dropWhile_cons_of_neg (by simp [hrest c rfl])]

theorem strtoul_numeral {text blanks sign digits : CString} (h : Numeral text blanks sign digits)
    (hv : digitsValue digits < 2 ^ 64) :
    strtoul text = ⟨numeralValue sign digits, [], true, false⟩ := by
  obtain ⟨rfl, hblanks, hsign, hne, hdigits⟩ := h
  obtain ⟨d, ds, rfl⟩ := List.exists_cons_of_ne_nil hne
  have hd := hdigits d List.mem_cons_self
  obtain ⟨hminus, hplus⟩ := isDigit_not_sign hd
  have htake : (d :: ds).takeWhile isDigit = d :: ds := List.takeWhile_eq_self_iff.mpr hdigits
  have hdrop : (d :: ds).dropWhile isDigit = [] := List.dropWhile_eq_nil_iff.mpr hdigits
  have hbody : (blanks ++ (sign ++ (d :: ds))).dropWhile isSpace = sign ++ (d :: ds) := by
    refine dropWhile_blanks hblanks fun c hc => ?_
    rcases hsign with rfl | rfl | rfl
    · rw [← Option.some.inj hc]
      exact isDigit_not_space hd
    · rw [← Option.some.inj hc]
      rfl
    · rw [← Option.some.inj hc]
      rfl
  have hle : ¬ 2 ^ 64 ≤ digitsValue (d :: ds) := by omega
  unfold strtoul numeralValue
  rw [hbody]
  rcases hsign with rfl | rfl | rfl
  · simp only [List.nil_append, List.head?_cons, Option.any_some, hminus, hplus, decide_false,
      Bool.or_false, Bool.false_eq_true, if_false, htake, hdrop, hle, List.cons_ne_nil]
    rfl
  · simp only [List.singleton_append, List.head?_cons, Option.any_some, plusSign, decide_true,
      Bool.or_true, if_true, List.drop_succ_cons, List.drop_zero, htake, hdrop, hle, if_false,
      List.cons_ne_nil]
    rfl
  · simp only [List.singleton_append, List.head?_cons, Option.any_some, minusSign, decide_true,
      Bool.true_or, if_true, List.drop_succ_cons, List.drop_zero, htake, hdrop, hle, if_false,
      List.cons_ne_nil]

theorem numeral_of_strtoul {text : CString} (hconv : (strtoul text).converted = true)
    (hrest : (strtoul text).rest = []) (hrange : (strtoul text).erange = false) :
    ∃ blanks sign digits, Numeral text blanks sign digits ∧ digitsValue digits < 2 ^ 64 := by
  have hsplit := (List.takeWhile_append_dropWhile (p := isSpace) (l := text)).symm
  have hblanks : ∀ c ∈ text.takeWhile isSpace, isSpace c = true := fun c => List.mem_takeWhile_imp
  unfold strtoul at hconv hrest hrange
  dsimp only at hconv hrest hrange
  generalize text.takeWhile isSpace = blanks at hsplit hblanks
  generalize text.dropWhile isSpace = body at hconv hrest hrange hsplit
  -- the sign is the first character of what follows the white space
  obtain ⟨sign, hsign, hbody⟩ : ∃ sign, (sign = [] ∨ sign = [plusSign] ∨ sign = [minusSign]) ∧
      body = sign ++ (if body.head?.any (fun c => c.val = 45 || c.val = 43) then body.drop 1
        else body) := by
    by_cases hs : body.head?.any (fun c => c.val = 45 || c.val = 43) = true
    · cases body with
      | nil => cases hs
      | cons c body =>
        refine ⟨[c], ?_, by rw [if_pos hs]; rfl⟩
        simp only [List.head?_cons, Option.any_some, Bool.or_eq_true, decide_eq_true_eq] at hs
        rcases hs with hs | hs
        · exact Or.inr (Or.inr (by rw [show c = minusSign from Subtype.ext hs]))
        · exact Or.inr (Or.inl (by rw [show c = plusSign from Subtype.ext hs]))
    · exact ⟨[], Or.inl rfl, by rw [if_neg hs]; rfl⟩
  generalize (if body.head?.any (fun c => c.val = 45 || c.val = 43) then body.drop 1
    else body) = number at hconv hrest hrange hbody
  have hnumber := (List.takeWhile_append_dropWhile (p := isDigit) (l := number)).symm
  by_cases hds : number.takeWhile isDigit = []
  · simp [hds] at hconv
  by_cases hv : 2 ^ 64 ≤ digitsValue (number.takeWhile isDigit)
  · simp only [hds, hv, if_false, if_true] at hrange
    cases hrange
  simp only [hds, hv, if_false] at hrest
  rw [hrest, List.append_nil] at hnumber
  refine ⟨blanks, sign, number, ⟨by rw [hsplit, ← hbody], hblanks, hsign, ?_, ?_⟩, ?_⟩
  · rw [hnumber]
    exact hds
  · intro c hc
    rw [hnumber] at hc
    exact List.mem_takeWhile_imp hc
  · rw [hnumber]
    omega

def permLetters : List CChar := ascii ['w', 'r', 'b', 'n']

theorem mem_permLetters {c : CChar} :
    c ∈ permLetters ↔ ∃ perm, xenstorePermFromWire c = .ok perm := by
  have hletters : permLetters = [⟨119, by decide⟩, ⟨114, by decide⟩, ⟨98, by decide⟩,
      ⟨110, by decide⟩] := by decide
  simp only [hletters, List.mem_cons, List.not_mem_nil, or_false, Subtype.ext_iff,
    xenstorePermFromWire]
  by_cases hw : c.val = 119
  · simp [hw]
  by_cases hr : c.val = 114
  · simp [hr]
  by_cases hb : c.val = 98
  · simp [hb]
  by_cases hn : c.val = 110
  · simp [hn]
  simp [hw, hr, hb, hn]

theorem and_domidMask (v : Nat) : v &&& domidMask = v ↔ v ≤ 0x7FFF := by
  have hmask : v &&& domidMask = v % 2 ^ 15 := Nat.and_two_pow_sub_one_eq_mod v 15
  rw [hmask]
  omega

/-- The text of an entry the parser takes: a letter and a numeral, whose value fits a domid. -/
def LooseEntry (e : CString) (blanks sign digits : CString) : Prop :=
  ∃ c text, e = c :: text ∧ c ∈ permLetters ∧ Numeral text blanks sign digits ∧
    digitsValue digits < 2 ^ 64 ∧ numeralValue sign digits ≤ 0x7FFF

theorem permParseEntry_ok {c : CChar} {text blanks sign digits : CString} {perm : XsPerm}
    (hc : xenstorePermFromWire c = .ok perm) (h : Numeral text blanks sign digits)
    (hv : digitsValue digits < 2 ^ 64) (hle : numeralValue sign digits ≤ 0x7FFF) :
    permParseEntry (c :: text) = .ok ⟨UInt16.ofNat (numeralValue sign digits), perm⟩ := by
  have hmask := (and_domidMask _).mpr hle
  simp [permParseEntry, hc, strtoul_numeral h hv, hmask]

theorem permParseEntry_iff (e : CString) :
    (∃ p, permParseEntry e = .ok p) ↔ ∃ blanks sign digits, LooseEntry e blanks sign digits := by
  constructor
  · rintro ⟨p, hp⟩
    cases e with
    | nil => cases hp
    | cons c text =>
      unfold permParseEntry at hp
      cases hc : xenstorePermFromWire c with
      | error err =>
        simp only [hc] at hp
        cases hp
      | ok perm =>
        simp only [hc] at hp
        split at hp
        · cases hp
        · rename_i hbad
          simp only [Bool.or_eq_true, Bool.not_eq_true', decide_eq_true_eq, not_or,
            Bool.not_eq_false, ne_eq, not_not, Bool.not_eq_true] at hbad
          obtain ⟨⟨⟨hconv, hrest⟩, hrange⟩, hmask⟩ := hbad
          obtain ⟨blanks, sign, digits, hnum, hv⟩ := numeral_of_strtoul hconv hrest hrange
          rw [strtoul_numeral hnum hv, and_domidMask] at hmask
          exact ⟨blanks, sign, digits, c, text, rfl, mem_permLetters.mpr ⟨perm, hc⟩, hnum, hv,
            hmask⟩
  · rintro ⟨blanks, sign, digits, c, text, rfl, hc, hnum, hv, hle⟩
    obtain ⟨perm, hperm⟩ := mem_permLetters.mp hc
    exact ⟨_, permParseEntry_ok hperm hnum hv hle⟩

theorem LooseEntry.length {e blanks sign digits : CString} (h : LooseEntry e blanks sign digits) :
    2 ≤ e.length := by
  obtain ⟨c, text, rfl, -, hnum, -⟩ := h
  have hpos := List.length_pos_iff.mpr hnum.ne_nil
  rw [hnum.text, List.length_cons, List.length_append, List.length_append]
  omega

theorem strHead_strBytes (s : CString) (tail : Bytes) : strHead (strBytes s ++ tail) = s := by
  induction s with
  | nil => rfl
  | cons c s ih => rw [strBytes_cons, List.cons_append, strHead, dif_neg c.property, ih]

theorem strBytes_split {raw : Bytes} (h : strnlen raw ≠ raw.length) :
    ∃ e tail, raw = strBytes e ++ tail := by
  have hmem : (0 : UInt8) ∈ raw := by
    by_contra hno
    refine h (congrArg List.length (List.takeWhile_eq_self_iff.mpr fun b hb => ?_))
    simp only [decide_eq_true_eq]
    rintro rfl
    exact hno hb
  obtain ⟨e, he⟩ := readStr_of_mem hmem
  obtain ⟨tail, ht⟩ := readStr_ok he
  exact ⟨e, tail, ht⟩

theorem strBytes_inj {e f : CString} {tail rest : Bytes}
    (h : strBytes e ++ tail = strBytes f ++ rest) : e = f ∧ tail = rest := by
  have he : e = f := by
    rw [← strHead_strBytes e tail, h, strHead_strBytes]
  subst he
  exact ⟨rfl, List.append_cancel_left h⟩

theorem entries_unique {es fs : List CString} (h : es.flatMap strBytes = fs.flatMap strBytes) :
    es = fs := by
  induction es generalizing fs with
  | nil =>
    cases fs with
    | nil => rfl
    | cons f fs => simp [strBytes] at h
  | cons e es ih =>
    cases fs with
    | nil => simp [strBytes] at h
    | cons f fs =>
      rw [List.flatMap_cons, List.flatMap_cons] at h
      obtain ⟨rfl, htail⟩ := strBytes_inj h
      rw [ih htail]

theorem permParseLoop_strBytes (permsNum : Option Nat) (fuel copied : Nat) (e : CString)
    (tail : Bytes) :
    permParseLoop permsNum (fuel + 1) copied (strBytes e ++ tail) =
      if e.length < 2 then .error .eproto
      else if permsNum.any (· ≤ copied) then .error .enospc
      else (permParseEntry e).bind fun p =>
        (permParseLoop permsNum fuel (copied + 1) tail).map (p :: ·) := by
  have hne : strBytes e ++ tail ≠ [] := by simp [strBytes]
  have hlen : ¬ e.length = (strBytes e ++ tail).length := by
    rw [List.length_append, strBytes_length]
    omega
  have hdrop : (strBytes e ++ tail).drop (e.length + 1) = tail := by
    rw [← strBytes_length, List.drop_left]
  rw [permParseLoop, if_neg hne]
  simp only [strnlen_strBytes, strHead_strBytes, hlen, hdrop, decide_false, Bool.false_or,
    decide_eq_true_eq]
  cases permParseEntry e with
  | error err => rfl
  | ok p => cases permParseLoop permsNum fuel (copied + 1) tail <;> rfl

/-- The counting call accepts exactly the concatenations of entries it accepts. -/
theorem permParseLoop_iff {fuel : Nat} {copied : Nat} {raw : Bytes} {ps : List XsPermEntry}
    (hfuel : raw.length ≤ fuel) :
    permParseLoop none fuel copied raw = .ok ps ↔
      ∃ es : List CString, raw = es.flatMap strBytes ∧ es.map permParseEntry = ps.map .ok := by
  induction fuel generalizing copied raw ps with
  | zero =>
    have hraw : raw = [] := List.length_eq_zero_iff.mp (by omega)
    subst hraw
    constructor
    · intro h
      cases h
      exact ⟨[], rfl, rfl⟩
    · rintro ⟨es, hes, hps⟩
      obtain rfl : es = [] := entries_unique hes.symm
      cases ps with
      | nil => rfl
      | cons p ps => cases hps
  | succ fuel ih =>
    by_cases hraw : raw = []
    · subst hraw
      constructor
      · intro h
        cases h
        exact ⟨[], rfl, rfl⟩
      · rintro ⟨es, hes, hps⟩
        obtain rfl : es = [] := entries_unique hes.symm
        cases ps with
        | nil => rfl
        | cons p ps => cases hps
    by_cases hend : strnlen raw = raw.length
    · constructor
      · intro h
        rw [permParseLoop, if_neg hraw, if_pos (by simp [hend])] at h
        cases h
      · rintro ⟨es, rfl, -⟩
        cases es with
        | nil => exact absurd rfl hraw
        | cons e es =>
          rw [List.flatMap_cons, strnlen_strBytes, List.length_append, strBytes_length] at hend
          omega
    obtain ⟨e, tail, rfl⟩ := strBytes_split hend
    have htail : tail.length ≤ fuel := by
      rw [List.length_append, strBytes_length] at hfuel
      omega
    rw [permParseLoop_strBytes]
    constructor
    · intro h
      split at h
      · cases h
      simp only [Option.any_none, Bool.false_eq_true, if_false] at h
      cases hp : permParseEntry e with
      | error err =>
        rw [hp] at h
        cases h
      | ok p =>
        cases hr : permParseLoop none fuel (copied + 1) tail with
        | error err =>
          rw [hp, hr] at h
          cases h
        | ok rest =>
          rw [hp, hr] at h
          cases h
          obtain ⟨es, rfl, hes⟩ := (ih htail).mp hr
          exact ⟨e :: es, rfl, by rw [List.map_cons, List.map_cons, hp, hes]⟩
    · rintro ⟨es, hes, hps⟩
      cases es with
      | nil => simp [strBytes] at hes
      | cons f es =>
        rw [List.flatMap_cons] at hes
        obtain ⟨rfl, rfl⟩ := strBytes_inj hes
        cases ps with
        | nil => cases hps
        | cons p ps =>
          rw [List.map_cons, List.map_cons, List.cons.injEq] at hps
          obtain ⟨blanks, sign, digits, hloose⟩ := (permParseEntry_iff e).mp ⟨p, hps.1⟩
          have hlen := hloose.length
          rw [if_neg (by omega), hps.1, (ih htail).mpr ⟨es, rfl, hps.2⟩]
          rfl

/-- A letter and one or more digits, whose value is at most 0x7FFF. -/
def PermText (e : CString) : Prop :=
  ∃ c digits, e = c :: digits ∧ c ∈ permLetters ∧ digits ≠ [] ∧
    (∀ d ∈ digits, isDigit d = true) ∧ digitsValue digits ≤ 0x7FFF

/-- The concatenation of `n` NUL-terminated entries. -/
def PermPayload (raw : Bytes) (n : Nat) : Prop :=
  ∃ es : List CString, es.length = n ∧ raw = es.flatMap strBytes ∧ ∀ e ∈ es, PermText e

/-- NUL-terminated entries of a letter and a numeral, one of which has white space or a sign
before its digits. -/
def LooselySpelled (raw : Bytes) : Prop :=
  ∃ es : List CString, raw = es.flatMap strBytes ∧
    (∀ e ∈ es, ∃ blanks sign digits, LooseEntry e blanks sign digits) ∧
    ∃ e ∈ es, ∃ blanks sign digits, LooseEntry e blanks sign digits ∧ blanks ++ sign ≠ []

theorem PermText.loose {e : CString} (h : PermText e) : ∃ digits, LooseEntry e [] [] digits := by
  obtain ⟨c, digits, rfl, hc, hne, hdigits, hv⟩ := h
  refine ⟨digits, c, digits, rfl, hc, ⟨rfl, by simp, Or.inl rfl, hne, hdigits⟩, ?_, ?_⟩
  · omega
  · simpa [numeralValue, minusSign] using hv

theorem LooseEntry.permText {e digits : CString} (h : LooseEntry e [] [] digits) : PermText e := by
  obtain ⟨c, text, rfl, hc, hnum, -, hv⟩ := h
  refine ⟨c, digits, ?_, hc, hnum.ne_nil, hnum.digits, ?_⟩
  · rw [hnum.text]
    rfl
  · simpa [numeralValue, minusSign] using hv

theorem PermText.not_loose {e blanks sign digits : CString} (h : PermText e)
    (hl : LooseEntry e blanks sign digits) : blanks ++ sign = [] := by
  obtain ⟨c, ds, rfl, -, -, hds, -⟩ := h
  obtain ⟨c', text, he, -, hnum, -⟩ := hl
  obtain ⟨rfl, rfl⟩ := List.cons.inj he
  rw [hnum.text] at hds
  cases blanks with
  | cons b blanks =>
    have hdigit := isDigit_not_space (hds b (by simp))
    rw [hnum.blanks b List.mem_cons_self] at hdigit
    cases hdigit
  | nil =>
    rcases hnum.sign with rfl | rfl | rfl
    · rfl
    · exact absurd rfl (isDigit_not_sign (hds plusSign (by simp))).2
    · exact absurd rfl (isDigit_not_sign (hds minusSign (by simp))).1

theorem exists_parsed {es : List CString}
    (h : ∀ e ∈ es, ∃ blanks sign digits, LooseEntry e blanks sign digits) :
    ∃ ps : List XsPermEntry, es.map permParseEntry = ps.map .ok := by
  induction es with
  | nil => exact ⟨[], rfl⟩
  | cons e es ih =>
    obtain ⟨p, hp⟩ := (permParseEntry_iff e).mpr (h e List.mem_cons_self)
    obtain ⟨ps, hps⟩ := ih fun f hf => h f (List.mem_cons_of_mem _ hf)
    exact ⟨p :: ps, by rw [List.map_cons, List.map_cons, hp, hps]⟩

theorem permParseWire_iff {raw : Bytes} {ps : List XsPermEntry} :
    xenstorePermParseWire raw none = .ok ps ↔
      ∃ es : List CString, raw = es.flatMap strBytes ∧ es.map permParseEntry = ps.map .ok :=
  permParseLoop_iff (Nat.le_refl _)

theorem loose_of_parsed {es : List CString} {ps : List XsPermEntry}
    (h : es.map permParseEntry = ps.map .ok) {e : CString} (he : e ∈ es) :
    ∃ blanks sign digits, LooseEntry e blanks sign digits := by
  have hmem : permParseEntry e ∈ ps.map Except.ok := h ▸ List.mem_map_of_mem he
  obtain ⟨p, -, hp⟩ := List.mem_map.mp hmem
  exact (permParseEntry_iff e).mp ⟨p, hp.symm⟩

/-- The parser accepts exactly the documented payloads, except that it also takes white space
and signs where `strtoul` does. -/
theorem permParseWire_grammar_iff (raw : Bytes) :
    (∀ n, (∃ ps, xenstorePermParseWire raw none = .ok ps ∧ ps.length = n) ↔ PermPayload raw n) ↔
      ¬ LooselySpelled raw := by
  constructor
  · rintro h ⟨es, rfl, hall, e, he, blanks, sign, digits, hloose, hne⟩
    obtain ⟨ps, hps⟩ := exists_parsed hall
    obtain ⟨fs, -, hfs, htext⟩ := (h ps.length).mp ⟨ps, permParseWire_iff.mpr ⟨es, rfl, hps⟩, rfl⟩
    rw [entries_unique hfs] at he
    exact hne ((htext e he).not_loose hloose)
  · intro h n
    constructor
    · rintro ⟨ps, hps, hn⟩
      obtain ⟨es, hes, hmap⟩ := permParseWire_iff.mp hps
      have hall : ∀ e ∈ es, ∃ blanks sign digits, LooseEntry e blanks sign digits :=
        fun e he => loose_of_parsed hmap he
      have hlen : es.length = n := by
        have := congrArg List.length hmap
        rwa [List.length_map, List.length_map, hn] at this
      refine ⟨es, hlen, hes, fun e he => ?_⟩
      obtain ⟨blanks, sign, digits, hloose⟩ := hall e he
      have hplain : blanks ++ sign = [] := by
        by_contra hne
        exact h ⟨es, hes, hall, e, he, blanks, sign, digits, hloose, hne⟩
      obtain ⟨rfl, rfl⟩ := List.append_eq_nil_iff.mp hplain
      exact hloose.permText
    · rintro ⟨es, hn, hes, htext⟩
      obtain ⟨ps, hps⟩ := exists_parsed fun e he => by
        obtain ⟨digits, hloose⟩ := (htext e he).loose
        exact ⟨[], [], digits, hloose⟩
      refine ⟨ps, permParseWire_iff.mpr ⟨es, hes, hps⟩, ?_⟩
      have := congrArg List.length hps
      rw [List.length_map, List.length_map] at this
      omega

/-- "r+1" is taken for the right to read of domain 1. -/
theorem permParseWire_takes_sign :
    ¬ ∀ raw n, (∃ ps, xenstorePermParseWire raw none = .ok ps ∧ ps.length = n) ↔
      PermPayload raw n := by
  intro h
  have hrun : xenstorePermParseWire (strBytes (ascii ['r', '+', '1'])) none =
      .ok [⟨1, .read⟩] := by decide
  obtain ⟨es, -, hes, htext⟩ := (h _ 1).mp ⟨_, hrun, rfl⟩
  have hone : [ascii ['r', '+', '1']] = es := by
    refine entries_unique ?_
    rw [← hes]
    rfl
  obtain ⟨c, digits, he, -, -, hdigits, -⟩ :=
    htext (ascii ['r', '+', '1']) (by rw [← hone]; exact List.mem_cons_self)
  obtain ⟨-, rfl⟩ := List.cons.inj (show _ :: ascii ['+', '1'] = c :: digits from he)
  exact absurd (hdigits plusSign (by decide)) (by decide)

/-- The stores into `perms` the loop makes, each with its index. -/
def permParseStores (permsNum : Option Nat) : Nat → Nat → Bytes → List (Nat × XsPermEntry)
  | 0, _, _ => []
  | fuel + 1, copied, raw =>
    if raw = [] then []
    else if strnlen raw = raw.length || strnlen raw < 2 then []
    else if permsNum.any (· ≤ copied) then []
    else match permParseEntry (strHead raw) with
      | .error _ => []
      | .ok p =>
        (if permsNum.isSome then [(copied, p)] else []) ++
          permParseStores permsNum fuel (copied + 1) (raw.drop (strnlen raw + 1))

section Fill
variable {m fuel copied : Nat} {raw : Bytes} {ps : List XsPermEntry}

theorem permParseStores_range (h : copied ≤ m) : ∃ k, copied + k ≤ m ∧
    (permParseStores (some m) fuel copied raw).map Prod.fst = List.range' copied k := by
  induction fuel generalizing copied raw with
  | zero => exact ⟨0, h, rfl⟩
  | succ fuel ih =>
    unfold permParseStores
    split
    · exact ⟨0, h, rfl⟩
    split
    · exact ⟨0, h, rfl⟩
    split
    · exact ⟨0, h, rfl⟩
    · rename_i hroom
      simp only [Option.any_some, decide_eq_true_eq, Nat.not_le] at hroom
      split
      · exact ⟨0, h, rfl⟩
      · obtain ⟨k, hk, hmap⟩ := @ih (copied + 1) (raw.drop (strnlen raw + 1)) hroom
        exact ⟨k + 1, by omega, by simp [hmap, List.range'_succ]⟩

/-- A filling call that succeeds has counted the same, stored what it counted, and had room. -/
theorem permParseLoop_filled (h : permParseLoop (some m) fuel copied raw = .ok ps) :
    permParseLoop none fuel copied raw = .ok ps ∧ (ps = [] ∨ copied + ps.length ≤ m) ∧
      (permParseStores (some m) fuel copied raw).map Prod.snd = ps := by
  induction fuel generalizing copied raw ps with
  | zero =>
    cases h
    exact ⟨rfl, Or.inl rfl, rfl⟩
  | succ fuel ih =>
    unfold permParseLoop at h ⊢
    unfold permParseStores
    by_cases hraw : raw = []
    · rw [if_pos hraw] at h
      cases h
      exact ⟨if_pos hraw, Or.inl rfl, by rw [if_pos hraw]; rfl⟩
    rw [if_neg hraw] at h ⊢
    rw [if_neg hraw]
    split at h
    · cases h
    rename_i hlen
    rw [if_neg hlen, if_neg hlen]
    split at h
    · cases h
    rename_i hroom
    rw [if_neg hroom]
    simp only [Option.any_some, decide_eq_true_eq, Nat.not_le] at hroom
    simp only [Option.any_none, Bool.false_eq_true, if_false, Option.isSome_some, if_true]
    cases hp : permParseEntry (strHead raw) with
    | error err =>
      simp only [hp] at h
      cases h
    | ok p =>
      cases hr : permParseLoop (some m) fuel (copied + 1) (raw.drop (strnlen raw + 1)) with
      | error err =>
        simp only [hp, hr] at h
        cases h
      | ok rest =>
        simp only [hp, hr, Except.ok.injEq] at h
        subst h
        obtain ⟨hnone, hfit, hstores⟩ := ih hr
        refine ⟨by simp only [hnone], Or.inr ?_, by simp [hstores]⟩
        rw [List.length_cons]
        rcases hfit with rfl | hfit
        · simp only [List.length_nil]
          omega
        · omega

/-- A filling call with too little room stops with -ENOSPC. -/
theorem permParseLoop_short (h : permParseLoop none fuel copied raw = .ok ps) (hle : copied ≤ m)
    (hm : m < copied + ps.length) : permParseLoop (some m) fuel copied raw = .error .enospc := by
  induction fuel generalizing copied raw ps with
  | zero =>
    cases h
    simp only [List.length_nil] at hm
    omega
  | succ fuel ih =>
    unfold permParseLoop at h ⊢
    by_cases hraw : raw = []
    · rw [if_pos hraw] at h
      cases h
      simp only [List.length_nil] at hm
      omega
    rw [if_neg hraw] at h ⊢
    split at h
    · cases h
    rename_i hlen
    rw [if_neg hlen]
    by_cases hroom : m ≤ copied
    · exact if_pos (by simpa using hroom)
    rw [if_neg (by simpa using hroom)]
    simp only [Option.any_none, Bool.false_eq_true, if_false] at h
    cases hp : permParseEntry (strHead raw) with
    | error err =>
      simp only [hp] at h
      cases h
    | ok p =>
      cases hr : permParseLoop none fuel (copied + 1) (raw.drop (strnlen raw + 1)) with
      | error err =>
        simp only [hp, hr] at h
        cases h
      | ok rest =>
        simp only [hp, hr, Except.ok.injEq] at h
        subst h
        rw [List.length_cons] at hm
        simp only [ih hr (by omega) (by omega)]

end Fill

/-- The text of one entry, "%c%u". -/
def permText (p : XsPermEntry) : CString := xenstorePermToWire p.perm :: decimal p.domid.toNat

def permsWire (perms : List XsPermEntry) : Bytes := perms.flatMap fun p => strBytes (permText p)

def uint32MaxStrLen : Nat := 11

def permsMaxLen (perms : List XsPermEntry) : Nat := perms.length * (uint32MaxStrLen + 1)

theorem serializePerms_wire {node : XsNode} {allocs rest : List Bool} {wire : Bytes}
    (h : serializePerms node allocs = .ok (some wire, rest)) : wire = permsWire node.perms := by
  have hspec : wp (serializePerms node) (fun r _ => ∀ w, r = some w → w = permsWire node.perms)
      (fun _ => True) allocs := by
    unfold serializePerms
    rw [wp_bind]
    refine wp_kMalloc_drawn fun b rest _ => ?_
    cases b with
    | false =>
      intro w hw
      cases hw
    | true => exact fun w hw => (Option.some.inj hw).symm
  exact wp_ok hspec h wire rfl

theorem permText_length (p : XsPermEntry) : (strBytes (permText p)).length ≤ 7 := by
  have hlt : p.domid.toNat < 65536 := p.domid.toNat_lt
  have hlen : (decimal p.domid.toNat).length ≤ 5 := decimal_length_le (by decide) (by omega)
  rw [strBytes_length, permText, List.length_cons]
  omega

theorem permsWire_length (perms : List XsPermEntry) :
    (permsWire perms).length ≤ perms.length * 7 := by
  induction perms with
  | nil => exact Nat.le_refl 0
  | cons p perms ih =>
    have hp := permText_length p
    rw [permsWire, List.flatMap_cons, List.length_append, List.length_cons]
    rw [permsWire] at ih
    omega

theorem permParseEntry_permText {p : XsPermEntry} (h : p.domid.toNat ≤ 0x7FFF) :
    permParseEntry (permText p) = .ok p := by
  have hnum : Numeral (decimal p.domid.toNat) [] [] (decimal p.domid.toNat) :=
    ⟨rfl, by simp, Or.inl rfl, (decimal_digits _).1, fun c hc => decimal_isDigit hc⟩
  have hval : numeralValue [] (decimal p.domid.toNat) = p.domid.toNat := digitsValue_decimal _
  have hparse := permParseEntry_ok (permFromWire_toWire p.perm) hnum
    (by rw [digitsValue_decimal]; omega) (by rw [hval]; exact h)
  rw [hval, UInt16.ofNat_toNat] at hparse
  exact hparse

theorem permParseWire_permsWire {perms : List XsPermEntry}
    (h : ∀ p ∈ perms, p.domid.toNat ≤ 0x7FFF) :
    xenstorePermParseWire (permsWire perms) none = .ok perms := by
  refine permParseWire_iff.mpr ⟨perms.map permText, ?_, ?_⟩
  · rw [List.flatMap_map]
    rfl
  · rw [List.map_map]
    exact List.map_congr_left fun p hp => permParseEntry_permText (h p hp)

theorem modify_label_self {p : List CString} {t e : XsEntry} (h : t.lookup p = some e) :
    t.modify (fun _ => e.label) p = t := by
  induction p generalizing t with
  | nil =>
    cases h
    rfl
  | cons k ks ih =>
    rw [Tree.lookup_cons] at h
    cases hf : t.children.find? k with
    | none =>
      rw [hf] at h
      cases h
    | some s =>
      rw [hf] at h
      rw [Tree.modify_cons_some hf, ih h, Forest.set_find? hf]

theorem wp_setPermsOf_same {x : Xenstore} {id : UInt32} {path : CString} {entry : EntryRef}
    {s : Shared} (hlim : x.usedOutBufs ≤ xenstoreMaxOutBufNum)
    (hentry : foundEntry s.root path = some entry)
    (hperms : ∀ p ∈ entry.entry.label.perms, p.domid.toNat ≤ 0x7FFF) :
    wp (setPermsOf x id (permsWire entry.entry.label.perms) path)
      (fun _ s' => s'.root = s.root) (fun _ => True) s := by
  unfold setPermsOf
  simp only [wp_bind, wp_get, wp_alloc]
  refine wp_keyToEntryCheckPerm (fun e rest _ he _ => ?_) (fun _ _ _ => trivial) (fun _ => trivial)
  rw [hentry] at he
  cases he
  have hself := modify_label_self (foundEntry_lookup hentry)
  simp only [wp_bind, wp_alloc, wp_modify]
  refine wp_setPermsByStrings (fun ps rest' _ hps _ => ?_) (fun e rest' _ _ => ?_)
  · rw [permParseWire_permsWire hperms] at hps
    cases hps
    exact wp_sendReplySz_any hlim fun _ _ _ => hself
  · exact wp_sendErrno_any hlim fun _ _ _ => hself

/-- Permission lists survive the wire: what is serialized fits the buffer and is read back; the
filling call agrees with the counting call and stays inside its array; and a list that is sent
back leaves the store as it is. -/
theorem perms_survive_wire :
    (∀ (node : XsNode) (allocs rest : List Bool) (wire : Bytes),
      (∀ p ∈ node.perms, p.domid.toNat ≤ 0x7FFF) →
      serializePerms node allocs = .ok (some wire, rest) →
      xenstorePermParseWire wire none = .ok node.perms) ∧
    (∀ (before after : List XsPermEntry) (p : XsPermEntry),
      (strBytes (permText p)).length ≤ uint32MaxStrLen + 1 ∧
      (permsWire before).length + (strBytes (permText p)).length ≤
        permsMaxLen (before ++ p :: after)) ∧
    (∀ (raw : Bytes) (ps : List XsPermEntry), xenstorePermParseWire raw none = .ok ps →
      ∀ m, (ps.length ≤ m → xenstorePermParseWire raw (some m) = .ok ps ∧
          (permParseStores (some m) raw.length 0 raw).map Prod.snd = ps) ∧
        (m < ps.length → xenstorePermParseWire raw (some m) = .error .enospc)) ∧
    (∀ (raw : Bytes) (m : Nat), ∃ k, k ≤ m ∧
      (permParseStores (some m) raw.length 0 raw).map Prod.fst = List.range k) ∧
    (∀ (raw : Bytes) (e : Errno), xenstorePermParseWire raw none = .error e →
      ∀ m ps, xenstorePermParseWire raw (some m) ≠ .ok ps) ∧
    (∀ (x x' : Xenstore) (id : UInt32) (text path : CString) (entry : EntryRef) (s s' : Shared)
      (allocs rest : List Bool) (wire : Bytes),
      x.usedOutBufs ≤ xenstoreMaxOutBufNum → resolvePath text x.domid = .ok path →
      foundEntry s.root path = some entry →
      (∀ p ∈ entry.entry.label.perms, p.domid.toNat ≤ 0x7FFF) →
      serializePerms entry.entry.label allocs = .ok (some wire, rest) →
      handleSetPerms x id (strBytes text ++ wire) s = .ok (x', s') → s'.root = s.root) := by
  refine ⟨fun node allocs rest wire hdom hser => ?_, fun before after p => ⟨?_, ?_⟩,
    fun raw ps hcount m => ⟨fun hm => ?_, fun hm => ?_⟩, fun raw m => ?_,
    fun raw e hcount m ps hfill => ?_, ?_⟩
  · rw [serializePerms_wire hser]
    exact permParseWire_permsWire hdom
  · have hp := permText_length p
    rw [uint32MaxStrLen]
    omega
  · have hp := permText_length p
    have hbefore := permsWire_length before
    rw [permsMaxLen, uint32MaxStrLen, List.length_append, List.length_cons]
    omega
  · have hfill := permParseLoop_room raw.length 0 raw ps m hcount (by omega)
    exact ⟨hfill, (permParseLoop_filled hfill).2.2⟩
  · exact permParseLoop_short hcount (Nat.zero_le m) (by omega)
  · obtain ⟨k, hk, hmap⟩ := @permParseStores_range m raw.length 0 raw (Nat.zero_le m)
    exact ⟨k, by omega, by rw [hmap, List.range_eq_range']⟩
  · have hnone : xenstorePermParseWire raw none = .ok ps := (permParseLoop_filled hfill).1
    rw [hcount] at hnone
    cases hnone
  · intro x x' id text path entry s s' allocs rest wire hlim hpath hentry hdom hser hrun
    rw [serializePerms_wire hser] at hrun
    have hspec : wp (handleSetPerms x id (strBytes text ++ permsWire entry.entry.label.perms))
        (fun _ s' => s'.root = s.root) (fun _ => True) s := by
      unfold handleSetPerms
      refine wp_ite (fun _ => wp_sendErrno_any hlim fun _ _ _ => rfl) (fun _ => ?_)
      have hdrop : (strBytes text ++ permsWire entry.entry.label.perms).drop
          (strnlen (strBytes text ++ permsWire entry.entry.label.perms) + 1) =
          permsWire entry.entry.label.perms := by
        rw [strnlen_strBytes, ← strBytes_length, List.drop_left]
      rw [hdrop]
      refine wp_withPath (readStr_strBytes text _)
        (fun e rest _ _ => wp_sendErrno_any hlim fun _ _ _ => rfl) (fun full rest _ hfull => ?_)
      rw [hpath] at hfull
      cases hfull
      exact wp_setPermsOf_same hlim hentry hdom
    have hroot := wp_ok hspec hrun
    exact hroot

/-- Domain 1 owns "/a", which domain 7 may read. -/
def readBySeven : Shared :=
  { Shared.boot 4 with
    root := ⟨⟨none, [⟨0, .none⟩]⟩,
      .cons (ascii ['a']) ⟨none, [⟨1, .none⟩, ⟨7, .read⟩]⟩ .nil .nil⟩ }

/-- The list of "/a" is read back, also into one place, which is too few; an unknown letter is
refused with any number of places; and domain 1 sends the list back. -/
theorem perms_survive_wire_two :
    xenstorePermParseWire (permsWire [⟨1, .none⟩, ⟨7, .read⟩]) none =
      .ok [⟨1, .none⟩, ⟨7, .read⟩] ∧
    xenstorePermParseWire (permsWire [⟨1, .none⟩, ⟨7, .read⟩]) (some 1) = .error .enospc ∧
    (∃ k, k ≤ 1 ∧ (permParseStores (some 1) (permsWire [⟨1, .none⟩, ⟨7, .read⟩]).length 0
      (permsWire [⟨1, .none⟩, ⟨7, .read⟩])).map Prod.fst = List.range k) ∧
    (∀ m ps, xenstorePermParseWire [120, 49, 0] (some m) ≠ .ok ps) ∧
    ∃ x' s', handleSetPerms (idleClient 1) 1
        (strBytes (ascii ['/', 'a']) ++ permsWire [⟨1, .none⟩, ⟨7, .read⟩]) readBySeven =
        .ok (x', s') ∧ s'.root = readBySeven.root := by
  obtain ⟨hback, -, hcount, hstores, hfail, hsame⟩ := perms_survive_wire
  have hparsed : xenstorePermParseWire (permsWire [⟨1, .none⟩, ⟨7, .read⟩]) none =
      .ok [⟨1, .none⟩, ⟨7, .read⟩] :=
    hback ⟨none, [⟨1, .none⟩, ⟨7, .read⟩]⟩ [] [] _ (by decide) rfl
  have hserved : (handleSetPerms (idleClient 1) 1
      (strBytes (ascii ['/', 'a']) ++ permsWire [⟨1, .none⟩, ⟨7, .read⟩])
      readBySeven).toOption.isSome := by
    decide +kernel
  cases hrun : handleSetPerms (idleClient 1) 1
      (strBytes (ascii ['/', 'a']) ++ permsWire [⟨1, .none⟩, ⟨7, .read⟩]) readBySeven with
  | error e =>
    rw [hrun] at hserved
    cases hserved
  | ok r =>
    obtain ⟨x', s'⟩ := r
    refine ⟨hparsed, (hcount _ _ hparsed 1).2 (by decide),
      hstores (permsWire [⟨1, .none⟩, ⟨7, .read⟩]) 1, hfail [120, 49, 0] .einval (by decide),
      x', s', rfl, ?_⟩
    exact hsame (idleClient 1) x' 1 (ascii ['/', 'a']) (ascii ['/', 'a'])
      ⟨[ascii ['a']], ⟨⟨none, [⟨1, .none⟩, ⟨7, .read⟩]⟩, .nil⟩⟩ readBySeven s' [] [] _ (by decide)
      (by decide) (by decide) (by decide) rfl hrun

end Xenlib
