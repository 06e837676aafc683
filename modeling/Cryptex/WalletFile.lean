import Cryptex.Serialization

/-!
# The wallet file

`persist`, `read_file` and `load` of `wallet.cpp`, with `persist` as the
sequence of its file operations. It may stop between any two of them, and each
of them may fail. Key derivation, AES and the payload are parameters.
-/

namespace Cryptex

open Codec

/-! ## The layout of the file -/

inductive KeyDerivation where
  | pbkdf2
  | scrypt
  | argon2id
deriving DecidableEq

namespace KeyDerivation

def code : KeyDerivation → UInt32
  | pbkdf2 => 0
  | scrypt => 1
  | argon2id => 2

def ofCode (raw : UInt32) : Option KeyDerivation :=
  if raw = 0 then some pbkdf2
  else if raw = 1 then some scrypt
  else if raw = 2 then some argon2id
  else none

theorem ofCode_code (kdf : KeyDerivation) : ofCode kdf.code = some kdf := by
  cases kdf <;> rfl

end KeyDerivation

def aesIvSize : Nat := 16

/-- The arguments of `persist`. The sizes are written in 32 bits. -/
structure SealedWallet where
  kdf : KeyDerivation
  salt : Bytes
  iv : Bytes
  ciphertext : Bytes
  salt_lt : salt.length < 2 ^ 32
  iv_lt : iv.length < 2 ^ 32
  ciphertext_lt : ciphertext.length < 2 ^ 32

namespace SealedWallet

/-- The bytes that `persist` writes. -/
def bytes (s : SealedWallet) : Bytes :=
  writeU32 2 ++ (writeU32 s.kdf.code ++ (writeU32 (UInt32.ofNat s.salt.length) ++ (s.salt ++
    (writeU32 (UInt32.ofNat s.iv.length) ++ (s.iv ++
      (writeU32 (UInt32.ofNat s.ciphertext.length) ++ s.ciphertext))))))

end SealedWallet

/-- Bytes of a given number at the front. -/
def readRaw (n : Nat) : Decoder Bytes UInt8 := fun data =>
  if data.length < n then none else some (data.take n, data.drop n)

/-- The end of `read_file`: what follows the ciphertext is ignored. -/
def readCiphertext (kdf : KeyDerivation) (salt iv data : Bytes) :
    Option (KeyDerivation × Bytes × Bytes × Bytes) :=
  (readU32 data).bind fun (length, data) =>
    (readRaw length.toNat data).map fun (ciphertext, _) => (kdf, salt, iv, ciphertext)

/-- `read_file`. -/
def readFile (data : Bytes) : Option (KeyDerivation × Bytes × Bytes × Bytes) :=
  (readU32 data).bind fun (version, data) =>
    if version = 1 then
      if data.length < aesIvSize * 2 + 4 then none
      else
        readCiphertext .pbkdf2 (data.take aesIvSize) ((data.drop aesIvSize).take aesIvSize)
          (data.drop (aesIvSize * 2))
    else if version = 2 then
      (readU32 data).bind fun (rawKdf, data) =>
        (KeyDerivation.ofCode rawKdf).bind fun kdf =>
          (readU32 data).bind fun (saltLen, data) =>
            (readRaw saltLen.toNat data).bind fun (salt, data) =>
              (readU32 data).bind fun (ivLen, data) =>
                (readRaw ivLen.toNat data).bind fun (iv, data) => readCiphertext kdf salt iv data
    else none

theorem readRaw_append (data rest : Bytes) : readRaw data.length (data ++ rest) = some (data, rest) := by
  have hlength : ¬ (data ++ rest).length < data.length := by
    rw [List.length_append]
    omega
  rw [readRaw, if_neg hlength, List.take_left, List.drop_left]

theorem toNat_ofNat_length {data : Bytes} (h : data.length < 2 ^ 32) :
    (UInt32.ofNat data.length).toNat = data.length := by
  rw [UInt32.toNat_ofNat']
  exact Nat.mod_eq_of_lt h

/-- What `persist` writes is read back. -/
theorem readFile_bytes (s : SealedWallet) : readFile s.bytes = some (s.kdf, s.salt, s.iv, s.ciphertext) := by
  have hciphertext := readRaw_append s.ciphertext []
  rw [List.append_nil] at hciphertext
  rw [readFile, SealedWallet.bytes, roundTrip_u32, Option.bind_some]
  simp only
  rw [if_neg (by decide), if_pos trivial, roundTrip_u32, Option.bind_some, KeyDerivation.ofCode_code,
    Option.bind_some, roundTrip_u32, Option.bind_some, toNat_ofNat_length s.salt_lt, readRaw_append,
    Option.bind_some, roundTrip_u32, Option.bind_some, toNat_ofNat_length s.iv_lt, readRaw_append,
    Option.bind_some, readCiphertext, roundTrip_u32, Option.bind_some]
  simp only [toNat_ofNat_length s.ciphertext_lt, hciphertext, Option.map_some]

/-! ## Loading -/

/-- Key derivation, decryption, and `deserialize_plaintext` with the chat keys
that are read or made after it; `none` is an exception. -/
structure WalletCipher (W : Type) where
  deriveKey : Bytes → Bytes → KeyDerivation → Option Bytes
  aesDecrypt : Bytes → Bytes → Bytes → Option Bytes
  deserialize : Bytes → Option W

/-- The wallet path, its backup and its temporary path. -/
structure WalletFiles where
  wallet : Option Bytes
  backup : Option Bytes
  temp : Option Bytes
deriving DecidableEq

section

variable {W : Type} (cipher : WalletCipher W) (password : Bytes)

/-- One candidate of `load`. -/
def openFile (data : Bytes) : Option W :=
  (readFile data).bind fun (kdf, salt, iv, ciphertext) =>
    (cipher.deriveKey password salt kdf).bind fun key =>
      (cipher.aesDecrypt ciphertext key iv).bind cipher.deserialize

/-- `load`: the wallet file, or else the backup. -/
def loadWallet (fs : WalletFiles) : Option W :=
  match fs.wallet.bind (openFile cipher password) with
  | some w => some w
  | none => fs.backup.bind (openFile cipher password)

/-- The password decrypts the arguments of `persist` to a wallet. -/
def SealedWallet.OpensWith (s : SealedWallet) : Prop :=
  ∃ key plaintext w, cipher.deriveKey password s.salt s.kdf = some key ∧
    cipher.aesDecrypt s.ciphertext key s.iv = some plaintext ∧
    cipher.deserialize plaintext = some w

end

theorem SealedWallet.OpensWith.openFile {W : Type} {cipher : WalletCipher W} {password : Bytes}
    {s : SealedWallet} (h : s.OpensWith cipher password) :
    ∃ w, Cryptex.openFile cipher password s.bytes = some w := by
  obtain ⟨key, plaintext, w, hkey, hplaintext, hw⟩ := h
  refine ⟨w, ?_⟩
  rw [Cryptex.openFile, readFile_bytes, Option.bind_some]
  simp only [hkey, Option.bind_some, hplaintext]
  exact hw

/-! ## Saving -/

/-- The file operations of `persist`, in order, and its two ends. -/
inductive PersistPhase where
  | openTemp
  | writeTemp
  | removeBackup
  | rotate
  | replace (movedExisting : Bool)
  | restore
  | removeTemp
  | done
  | thrown
deriving DecidableEq

/-- The operations that fail. A write that fails leaves some of the bytes. -/
structure PersistFaults where
  openFails : Bool
  writeFails : Option Nat
  removeFails : Bool
  rotateFails : Bool
  replaceFails : Bool
  restoreFails : Bool
  removeTempFails : Bool
deriving DecidableEq

/-- One operation of `persist`. -/
def PersistPhase.step (data : Bytes) (faults : PersistFaults) :
    PersistPhase → WalletFiles → PersistPhase × WalletFiles
  | openTemp, fs =>
      if faults.openFails then (thrown, fs) else (writeTemp, { fs with temp := some [] })
  | writeTemp, fs =>
      match faults.writeFails with
      | some n => (thrown, { fs with temp := some (data.take n) })
      | none => (removeBackup, { fs with temp := some data })
  -- A backup that cannot be removed is not an error.
  | removeBackup, fs => (rotate, if faults.removeFails then fs else { fs with backup := none })
  | rotate, fs =>
      match fs.wallet with
      | none => (replace false, fs)
      | some w =>
          if faults.rotateFails then (removeTemp, fs)
          else (replace true, { fs with wallet := none, backup := some w })
  | replace movedExisting, fs =>
      match faults.replaceFails, fs.temp with
      | false, some t => (done, { fs with wallet := some t, temp := none })
      | _, _ => (if movedExisting then restore else removeTemp, fs)
  | restore, fs =>
      match faults.restoreFails, fs.backup with
      | false, some b => (removeTemp, { fs with wallet := some b, backup := none })
      | _, _ => (removeTemp, fs)
  | removeTemp, fs => (thrown, if faults.removeTempFails then fs else { fs with temp := none })
  | done, fs => (done, fs)
  | thrown, fs => (thrown, fs)

/-- The phase and the files after a number of operations. -/
def persistSteps (data : Bytes) (faults : PersistFaults) :
    Nat → PersistPhase × WalletFiles → PersistPhase × WalletFiles
  | 0, s => s
  | n + 1, s => persistSteps data faults n (s.1.step data faults s.2)

/-- A call of `persist` that is cut off after some operations. With eight of
them it comes to its end. -/
structure PersistCall where
  sealed : SealedWallet
  faults : PersistFaults
  operations : Nat

namespace PersistCall

def outcome (c : PersistCall) (fs : WalletFiles) : PersistPhase × WalletFiles :=
  persistSteps c.sealed.bytes c.faults c.operations (.openTemp, fs)

/-- `persist` returns. -/
def Completes (c : PersistCall) (fs : WalletFiles) : Prop := (c.outcome fs).1 = .done

end PersistCall

inductive FileCall where
  | persist (c : PersistCall)
  | load

namespace FileCall

/-- The files after a call; `load` leaves them. -/
def run (fs : WalletFiles) : FileCall → WalletFiles
  | persist c => (c.outcome fs).2
  | load => fs

def sealedWallets : FileCall → List SealedWallet
  | persist c => [c.sealed]
  | load => []

end FileCall

end Cryptex
