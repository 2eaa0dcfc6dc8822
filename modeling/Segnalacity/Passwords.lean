import Segnalacity.SessionContract
import Segnalacity.Lib.PolyHash
import Mathlib.Data.UInt

/-! # Passwords

The digest of a password is a polynomial over the 64-bit words, written twice in hexadecimal.  Its
multiplier is odd, so that two passwords that differ in one pair of adjacent bytes have the same
digest exactly when `33 x + y` is the same for the two pairs: `near_miss_rejected_iff`. -/

namespace Segnalacity

open CStr StateProg Sql PolyHash
open scoped UInt64.CommRing

/-! ### The digest -/

theorem djb2_eq (h : UInt64) (c : UInt8) : djb2 h c = 33 * h + c.toUInt64 := by
  have hshift : h <<< 5 = 32 * h := by
    apply UInt64.toNat_inj.mp
    rw [UInt64.toNat_shiftLeft, UInt64.toNat_mul, Nat.shiftLeft_eq]
    exact congrArg (· % 2 ^ 64) (Nat.mul_comm _ _)
  show h <<< 5 + h + c.toUInt64 = _
  rw [hshift]
  have h33 : (33 : UInt64) = 32 + 1 := by decide
  rw [h33, add_mul, one_mul]

theorem foldl_djb2 (h : UInt64) (s : Bytes) : s.foldl djb2 h = polyHash 33 UInt8.toUInt64 h s := by
  unfold polyHash
  congr 1
  funext h c
  exact djb2_eq h c

theorem isUnit_multiplier : IsUnit (33 : UInt64) :=
  IsUnit.of_mul_eq_one 1117984489315730401 (by decide)

theorem hexDigit_injective : ∀ i < 16, ∀ j < 16, hexDigit i = hexDigit j → i = j := by decide

theorem hex16_injective {h h' : UInt64} (heq : hex16 h = hex16 h') : h = h' := by
  apply UInt64.toNat_inj.mp
  refine digits_injective (b := 16) (k := 16) h.toNat_lt h'.toNat_lt fun i hi => ?_
  have hdigit := List.map_inj_left.mp heq (15 - i) (List.mem_range.mpr (by omega))
  have hi' : 15 - (15 - i) = i := by omega
  rw [hi'] at hdigit
  exact hexDigit_injective _ (Nat.mod_lt _ (by decide)) _ (Nat.mod_lt _ (by decide)) hdigit

theorem hex16_length (h : UInt64) : (hex16 h).length = 16 := by
  unfold hex16
  rw [List.length_map, List.length_range]

/-- The accumulator after the salt and the password. -/
def digest (salt plain : Bytes) : UInt64 := (cstr plain).foldl djb2 ((cstr salt).foldl djb2 5381)

theorem hashPassword_eq (salt plain : Bytes) : hashPassword salt plain =
    hex16 (digest salt plain) ++ hex16 (digest salt plain ^^^ 0xDEADBEEFDEADBEEF) := by
  refine List.take_of_length_le ?_
  rw [List.length_append, hex16_length, hex16_length]
  exact le_rfl

theorem hashPassword_inj {salt salt' plain plain' : Bytes} :
    hashPassword salt plain = hashPassword salt' plain' ↔ digest salt plain = digest salt' plain' := by
  rw [hashPassword_eq, hashPassword_eq]
  constructor
  · intro heq
    have hlen := (hex16_length (digest salt plain)).trans (hex16_length (digest salt' plain')).symm
    exact hex16_injective (List.append_inj heq hlen).1
  · intro heq
    rw [heq]

/-- The comparison of two digests as a whole. -/
theorem constantTimeCompare_iff (salt salt' plain plain' : Bytes) :
    constantTimeCompare (hashPassword salt plain) (hashPassword salt' plain') = true ↔
      digest salt plain = digest salt' plain' := by
  have hpad : ∀ s t : Bytes, padHash (hashPassword s t) = hashPassword s t := by
    intro s t
    refine List.take_left' ?_
    rw [hashPassword_eq, List.length_append, hex16_length, hex16_length]
    rfl
  rw [← hashPassword_inj]
  unfold constantTimeCompare
  rw [decide_eq_true_iff, hpad, hpad]

/-- Passwords that differ in one pair of adjacent bytes. -/
theorem digest_pair {front back : Bytes} {x y x' y' : UInt8}
    (hp : (0 : UInt8) ∉ front ++ x :: y :: back) (hq : (0 : UInt8) ∉ front ++ x' :: y' :: back)
    (salt : Bytes) :
    digest salt (front ++ x :: y :: back) = digest salt (front ++ x' :: y' :: back) ↔
      33 * x.toNat + y.toNat = 33 * x'.toNat + y'.toNat := by
  have hvalue : ∀ a b : UInt8, (33 * a.toUInt64 + b.toUInt64).toNat = 33 * a.toNat + b.toNat := by
    intro a b
    have ha := a.toNat_lt
    have hb := b.toNat_lt
    rw [UInt64.toNat_add, UInt64.toNat_mul, UInt8.toNat_toUInt64, UInt8.toNat_toUInt64]
    show ((33 * a.toNat) % 2 ^ 64 + b.toNat) % 2 ^ 64 = _
    omega
  unfold digest
  rw [cstr_eq_self hp, cstr_eq_self hq, foldl_djb2, foldl_djb2, foldl_djb2,
    polyHash_pair isUnit_multiplier, ← UInt64.toNat_inj, hvalue, hvalue]

/-! ### Accounts -/

section accounts
variable [Platform] {e : Env} {w w' : World}

/-- The row of a new account. -/
theorem userRegister_row {username plain city : Bytes} {role : UserRole}
    (h : userRegister username plain city role e w = (0, w')) :
    (∀ x ∈ w.db.users, x.username ≠ cstr username) ∧ ∃ row,
      w'.db.users = w.db.users ++ [row] ∧ row.username = cstr username ∧
      row.role = role.toInt ∧ row.city = cstr city ∧
      ∃ salt, salt.length = saltHexLen ∧ row.salt = cstr salt ∧
        row.passwordHash = cstr (hashPassword salt plain) := by
  obtain ⟨salt, w₁, h₁, h₂⟩ := Prog.bind_run_iff.mp h
  obtain ⟨rfl, rfl⟩ := generateSalt_run h₁
  rcases dbExec_run h₂ with ⟨hrc, -⟩ | ⟨-, -, db, hins, rfl⟩
  · exact absurd hrc (by decide)
  · obtain ⟨hfree, id, -, hdb⟩ := insertUser_eq_some hins
    exact ⟨hfree, _, congrArg Database.users hdb, rfl, rfl, rfl, _, hexString_length _, rfl, rfl⟩

/-- No login with the password succeeds, then or when rows have been appended, as requests do
(`users_kept`). -/
def NeverAccepts (db : Database) (username password : Bytes) : Prop :=
  ∀ (e : Env) (w : World) (later : List UserRow), w.db.users = db.users ++ later →
    (userAuthenticate username password e w).1 = none

/-- A password is refused for good when its digest differs from that of the account. -/
theorem neverAccepts_iff (e : Env) (w : World) {db : Database} {username plain other salt : Bytes}
    {row : UserRow} (hrow : (selectUsersByName username db).head? = some row)
    (hsalt : salt.length ≤ saltHexLen) (hs : row.salt = cstr salt)
    (hhash : row.passwordHash = cstr (hashPassword salt plain)) :
    NeverAccepts db username other ↔ digest salt plain ≠ digest salt other := by
  obtain ⟨hsalt', hhash'⟩ := cursorToUser_hash hsalt hs hhash
  have hcompare : constantTimeCompare (cursorToUser row).passwordHash
      (hashPassword (cursorToUser row).salt other) = true ↔ digest salt plain = digest salt other := by
    rw [hsalt', hhash', hashPassword_cstr]
    exact constantTimeCompare_iff _ _ _ _
  constructor
  · intro hnever heq
    have haccepts : (userAuthenticate username other { e with fails := fun _ => false }
        { w with db := db }).1 = some (cursorToUser row) :=
      userAuthenticate_accepts hrow (hcompare.mpr heq) rfl rfl rfl
    rw [hnever { e with fails := fun _ => false } { w with db := db } [] (List.append_nil _).symm]
      at haccepts
    cases haccepts
  · intro hne e w later hlater
    have hfirst : (selectUsersByName username w.db).head? = some row := by
      unfold selectUsersByName select at hrow ⊢
      rw [hlater, List.filter_append, List.head?_append, hrow]
      rfl
    cases hu : userAuthenticate username other e w with
    | mk u w' =>
        cases u with
        | none => rfl
        | some x =>
            obtain ⟨row', hrow', rfl⟩ := (userAuthenticate_run hu).2 x rfl
            obtain rfl := Option.some.inj (hfirst.symm.trans hrow')
            exact absurd (hcompare.mp (userAuthenticate_compares hu)) hne

/-- **Near misses.**  A password that differs in one pair of adjacent bytes has another digest, and
is refused for good, exactly when `33 x + y` differs for the pair. -/
theorem near_miss_rejected_iff {front back : Bytes} {x y x' y' : UInt8}
    (hp : (0 : UInt8) ∉ front ++ x :: y :: back) (hq : (0 : UInt8) ∉ front ++ x' :: y' :: back) :
    (∀ salt, hashPassword salt (front ++ x :: y :: back) ≠
        hashPassword salt (front ++ x' :: y' :: back) ↔
      33 * x.toNat + y.toNat ≠ 33 * x'.toNat + y'.toNat) ∧
    ∀ {e : Env} {w w' : World} {username city : Bytes} {role : UserRole},
      userRegister username (front ++ x :: y :: back) city role e w = (0, w') →
      (NeverAccepts w'.db username (front ++ x' :: y' :: back) ↔
        33 * x.toNat + y.toNat ≠ 33 * x'.toNat + y'.toNat) := by
  constructor
  · intro salt
    rw [Ne, hashPassword_inj, digest_pair hp hq]
  · intro e w w' username city role h
    obtain ⟨hfree, row, hrow, hname, -, -, salt, hsalt, hs, hhash⟩ := userRegister_row h
    have hfirst : (selectUsersByName username w'.db).head? = some row := by
      refine selectUsersByName_row hrow ?_ hname
      rw [hname]
      exact hfree
    rw [neverAccepts_iff e w hfirst hsalt.le hs hhash, Ne, digest_pair hp hq]

end accounts

/-! ### Two near misses -/

def adaAccount (password : Bytes) : ℤ × @World samplePlatform :=
  @userRegister samplePlatform (bytes "ada") password (bytes "Lodi") .citizen sampleEnv
    (@emptyWorld samplePlatform noSessions)

theorem adaAccount_registered : (adaAccount (bytes "abcdef")).1 = 0 := by decide +kernel

theorem userRegister_adaAccount :
    @userRegister samplePlatform (bytes "ada") (bytes "abcdef") (bytes "Lodi") .citizen sampleEnv
      (@emptyWorld samplePlatform noSessions) = (0, (adaAccount (bytes "abcdef")).2) := by
  rw [← adaAccount_registered]
  unfold adaAccount
  exact Prod.mk.eta.symm

theorem near_miss_rejected_iff_abcfdf :
    letI := samplePlatform
    (∀ salt, hashPassword salt (bytes "abcdef") ≠ hashPassword salt (bytes "abcfdf")) ∧
      NeverAccepts (adaAccount (bytes "abcdef")).2.db (bytes "ada") (bytes "abcfdf") := by
  let := samplePlatform
  have h := @near_miss_rejected_iff samplePlatform (bytes "abc") (bytes "f") 100 101 102 100
    (by decide) (by decide)
  have hne : 33 * (100 : UInt8).toNat + (101 : UInt8).toNat ≠
      33 * (102 : UInt8).toNat + (100 : UInt8).toNat := by decide
  exact ⟨fun salt => (h.1 salt).mpr hne, (h.2 userRegister_adaAccount).mpr hne⟩

/-- With `bA` for `ab` the password is accepted. -/
theorem near_miss_accepted :
    letI := samplePlatform
    (adaAccount (bytes "abcdef")).1 = 0 ∧
      ¬ NeverAccepts (adaAccount (bytes "abcdef")).2.db (bytes "ada") (bytes "bAcdef") := by
  let := samplePlatform
  have haccepts : ((userAuthenticate (bytes "ada") (bytes "bAcdef") sampleEnv
      (adaAccount (bytes "abcdef")).2).1).isSome = true := by decide +kernel
  refine ⟨adaAccount_registered, fun hnever => ?_⟩
  rw [hnever sampleEnv _ [] (List.append_nil _).symm] at haccepts
  cases haccepts

end Segnalacity
