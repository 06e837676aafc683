import Cryptex.ChainState
import Cryptex.Mempool

/-!
# Regtest data

SHA3-512, secp256k1 and the address encoding are not part of this model. For
concrete blocks and transactions they are given by tables, which say what the
real functions return on the byte strings that these blocks and transactions
lead to. A byte string is looked up under its residue.
-/

namespace Cryptex

namespace Regtest

/-! ## Tables -/

/-- The key of a byte string; the leading one keeps its length. -/
def residue (data : Bytes) : Nat := fromBytes (1 :: data) % 18446744073709551557

structure Tables where
  digests : List (Nat × Nat)
  /-- hash, signature and public key, one after the other -/
  signatures : List Nat
  addresses : List (Nat × Bytes)

/-- The functions of the tables. Their addresses are in base 58, so that two
of them are equal as strings or not at all. -/
def Tables.crypto (t : Tables) : Crypto where
  sha3_512 data := BitVec.ofNat 512 ((t.digests.lookup (residue data)).getD 0)
  verifySignature h signature pubkey :=
    t.signatures.contains (residue (h.toBytes ++ signature ++ pubkey))
  pubkeyToAddress pubkey := (t.addresses.lookup (residue pubkey)).getD []
  addressesEqual a b := a = b

/-! ## Keys -/

/-- An uncompressed public key. -/
def publicKey (x y : Nat) : Bytes := 4 :: (toPaddedBytes 32 x ++ toPaddedBytes 32 y)

/-- A signature in DER; the lengths are those of the two integers. -/
def signature (rLen r sLen s : Nat) : Bytes :=
  [0x30, UInt8.ofNat (4 + rLen + sLen), 2, UInt8.ofNat rLen] ++ toPaddedBytes rLen r ++
    [2, UInt8.ofNat sLen] ++ toPaddedBytes sLen s

theorem length_publicKey (x y : Nat) : (publicKey x y).length = 65 := by
  simp [publicKey]

theorem length_signature (rLen r sLen s : Nat) : (signature rLen r sLen s).length = rLen + sLen + 6 := by
  simp [signature]
  omega

/-- The script that spends an output: signature, then key. -/
def scriptSig (r s : Nat) (pubkey : Nat × Nat) : Vec UInt8 where
  toList := signature (if r < 2 ^ 255 then 32 else 33) r 32 s ++ publicKey pubkey.1 pubkey.2
  size_lt := by
    rw [List.length_append, length_signature, length_publicKey]
    split <;> norm_num

def alice : Nat × Nat :=
  (0xf01d6b9018ab421dd410404cb869072065522bf85734008f105cf385a023a80f,
    0x0eba29d0f0c5408ed681984dc525982abefccd9f7ff01dd26da4999cf3f6a295)

def aliceAddress : Vec UInt8 :=
  ⟨[67, 88, 82, 121, 102, 65, 97, 77, 100, 74, 118, 81, 107, 75, 74, 106, 77,
    75, 67, 84, 56, 49, 74, 116, 117, 55, 88, 100, 84, 102, 52, 69, 119, 98], by decide⟩

def bob : Nat × Nat :=
  (0x54006a630e70fca8d45a696d7dba3a1cb7d81cc830cfce3be0f634373aac3f0a,
    0x32d92c4207b931604884cfdd494c2af6ee5995f490180cbd8fa39200fefe47f8)

def bobAddress : Vec UInt8 :=
  ⟨[67, 72, 100, 67, 106, 117, 88, 83, 55, 111, 50, 87, 118, 55, 84, 90, 76,
    89, 65, 54, 54, 66, 67, 82, 76, 106, 82, 102, 84, 120, 65, 107, 90, 53], by decide⟩

/-- The address of alice in base 64, as `canonicalize_address` returns it. -/
def aliceCanonical : Vec UInt8 :=
  ⟨[112, 67, 49, 78, 97, 75, 47, 55, 117, 83, 112, 75, 99, 122, 51, 119, 49,
    98, 43, 84, 100, 85, 86, 112, 73, 101, 85, 61], by decide⟩

/-! ## Transactions -/

/-- 90000 of the 100000 of a confirmed output. -/
def payment : Transaction where
  version := 1
  inputs := ⟨[⟨⟨0x7, 0⟩, scriptSig
      0x7a1a76024b0a80b61bb134075f2f1d369ac028605ff875e9e5867bd81e376516
      0x27a56b29fd6da422135fba62e3ab3b9a37a3c59cbd28c9e0a0dac20e06bca4f8 alice, 0xffffffff⟩], by simp⟩
  outputs := ⟨[⟨90000, aliceAddress⟩], by simp⟩
  lockTime := 0

/-- 80000 of the output of `payment`. -/
def childPayment : Transaction where
  version := 1
  inputs := ⟨[⟨⟨0x9b58c99dc7df8151ded21db129cc6c5d52a5f49a163d1a93cd733d1654d80276, 0⟩, scriptSig
      0x1f04243c9b0b7ab199a8ac460b942ee1d784785548554978f77ad79997741c1a
      0x4207ec541db0d35ab79d4d6c9221452dac16bc52452fb51b25303ce1c6bcc728 alice, 0xffffffff⟩], by simp⟩
  outputs := ⟨[⟨80000, aliceAddress⟩], by simp⟩
  lockTime := 0

/-- Two confirmed outputs of 2^62 each make one. -/
def largePayment : Transaction where
  version := 1
  inputs := ⟨[⟨⟨0x7, 0⟩, scriptSig
      0xb35f037b4194faec13517d443d67956b372f62c909d3cbe8cd0ad26af0f6ec39
      0x7a5d77e0e82619d51c54a5b4936fc317cf0c853fd6bb1df1ffa44cf3d50f3ad7 alice, 0xffffffff⟩,
    ⟨⟨0x7, 1⟩, scriptSig
      0x560279433007de3f1c5fdde9ec0f8ebcca02d3a32ec79176851ad32182a951f9
      0x74b797f9822f437db9091fde6b356f297d3b89b5c2c11421503ae0ef2691fd39 alice, 0xffffffff⟩], by simp⟩
  outputs := ⟨[⟨4611686018427387904, aliceAddress⟩], by simp⟩
  lockTime := 0

/-- No inputs, and outputs that add up to zero. -/
def grant : Transaction where
  version := 1
  inputs := ⟨[], by simp⟩
  outputs := ⟨[⟨100000, aliceAddress⟩, ⟨-100000, aliceAddress⟩], by simp⟩
  lockTime := 0

/-- 90000 of the grant. -/
def grantPayment : Transaction where
  version := 1
  inputs := ⟨[⟨⟨0xb549577935820a08bc7def2c59cea248b5685efcb525c29a54241c5256ed6505, 0⟩, scriptSig
      0x45b3cc266193287250ff2d4db110128cb719de603f1d7b88c6ff827e8efb924e
      0x6455e0dbe1d1cb7cca9493fb9391c5fc246f538157ffff4823cf1f8917d1c75f alice, 0xffffffff⟩], by simp⟩
  outputs := ⟨[⟨90000, aliceAddress⟩], by simp⟩
  lockTime := 0

/-- 85000 of the output of `grantPayment`. -/
def slowChild : Transaction where
  version := 1
  inputs := ⟨[⟨⟨0x4b757ee229a2768a04a8f1ffac7ba09a174b22f1d674753ce8d16b6ced8c83b, 0⟩, scriptSig
      0x7f1eb733b79cdc03b8897bf0965c7cb708237d2461fc5127a71f0367dc1f1371
      0x10dd27cce6a1bca0dee6ad6ca45f7b8c2941db775beb5668055943a3c008d29b alice, 0xffffffff⟩], by simp⟩
  outputs := ⟨[⟨85000, aliceAddress⟩], by simp⟩
  lockTime := 0

/-- The same with a higher fee. -/
def fastChild : Transaction where
  version := 1
  inputs := ⟨[⟨⟨0x4b757ee229a2768a04a8f1ffac7ba09a174b22f1d674753ce8d16b6ced8c83b, 0⟩, scriptSig
      0x300f4dec9ff9d98d5fa9e0b03c04245c9da8a9d6050a656157549a9cd406abb9
      0x70d8abd50c80d07130d1e4c07e8b907a3367063d4f01c5cb1489b9cfb84f7da7 alice, 0xffffffff⟩], by simp⟩
  outputs := ⟨[⟨40000, aliceAddress⟩], by simp⟩
  lockTime := 0

/-! ## Blocks -/

/-- A coinbase whose script tells it from the others. -/
def coinbaseTx (script : Vec UInt8) (value : Int64) : Transaction where
  version := 1
  inputs := ⟨[⟨⟨0, 0xFFFFFFFF⟩, script, 0xFFFFFFFF⟩], by simp⟩
  outputs := ⟨[⟨value, ChainParams.defaultGenesisAddress⟩], by simp⟩
  lockTime := 0

def a1 : Block where
  header := ⟨1,
    0x54ceead1c8f8b9a5264f02ffeaa1b9e2182c5b077a1219a7541500a3049f692,
    0xb495fa1293cb1ce19588eaf693b432b16374eb63b0276cf4aac14f0e3c568fe5,
    1741479002, 0x407fffff, 0⟩
  transactions := ⟨[coinbaseTx ⟨[97, 49], by decide⟩ 250000000000], by decide⟩

def a2 : Block where
  header := ⟨1,
    0x6d50b902b4f80931032e4881d34d2db118eb63dce664e0fdae80ec2d856a96a3,
    0x22c2e7ac25028d7e3b63b01d44939ed6232b33726805fe3673ca31e3b9af014d,
    1741479602, 0x407fffff, 1⟩
  transactions := ⟨[coinbaseTx ⟨[97, 50], by decide⟩ 250000000000], by decide⟩

def a3 : Block where
  header := ⟨1,
    0x23ff12b05da81a12515025b51b8c7232b5e6956a9357a7b8b2de8960ebe04f04,
    0xb07bb326884d851540896fddf0d1a7e22d1629d40e911fbfe2cc65242b6f56b7,
    1741480202, 0x407fffff, 1⟩
  transactions := ⟨[coinbaseTx ⟨[97, 51], by decide⟩ 250000000000], by decide⟩

def b1 : Block where
  header := ⟨1,
    0x54ceead1c8f8b9a5264f02ffeaa1b9e2182c5b077a1219a7541500a3049f692,
    0xa9125499848bda95c8108b1198875d2b657145166792f11929dbc42409f2587,
    1741479002, 0x407fffff, 1⟩
  transactions := ⟨[coinbaseTx ⟨[98, 49], by decide⟩ 250000000000], by decide⟩

def b2 : Block where
  header := ⟨1,
    0x540171dabc8eb06b8ccb47fced8310a2783b7e76429884d706a945fdd2943936,
    0x4ce48930d283c080d5c274f206a435884c41068e3aaa08182b951fa8c9281058,
    1741479602, 0x407fffff, 1⟩
  transactions := ⟨[coinbaseTx ⟨[98, 50], by decide⟩ 250000000000], by decide⟩

def b3 : Block where
  header := ⟨1,
    0x3a9223ab292247d9c7a9ae31852e6ff5c9a4e58fead81d923aea96cd111df5d9,
    0x60344a1a38d6339cb8fe8e5a9706408ca59552596765622c1c1c1d06b84621a4,
    1741480202, 0x407fffff, 0⟩
  transactions := ⟨[coinbaseTx ⟨[98, 51], by decide⟩ 250000000000], by decide⟩

def b4 : Block where
  header := ⟨1,
    0x53503d18320097741d4050dcb130af5f8fdf60a95770e504bbda75140b6cb0bf,
    0xfadd212f35bdf39331ffa7988540c6e73732e827f01ac011fcc63a7bef91857d,
    1741480802, 0x407fffff, 2⟩
  transactions := ⟨[coinbaseTx ⟨[98, 52], by decide⟩ 250000000000], by decide⟩

/-- Its coinbase takes more than the reward. -/
def x2 : Block where
  header := ⟨1,
    0x6d50b902b4f80931032e4881d34d2db118eb63dce664e0fdae80ec2d856a96a3,
    0xcee12a0ac4f5885c533a4ded521d9cadafd1731c4ec60e2f60ce800109c2e96c,
    1741479602, 0x407fffff, 0⟩
  transactions := ⟨[coinbaseTx ⟨[120, 50], by decide⟩ 250000000001], by decide⟩

/-- The same on the other branch. -/
def y2 : Block where
  header := ⟨1,
    0x540171dabc8eb06b8ccb47fced8310a2783b7e76429884d706a945fdd2943936,
    0xd1a936bc3fe891a7e807f450a13c845edd6f8ad8eae35dcae8b45b8722117220,
    1741479602, 0x407fffff, 1⟩
  transactions := ⟨[coinbaseTx ⟨[121, 50], by decide⟩ 250000000001], by decide⟩

/-- The same one block later. -/
def x3 : Block where
  header := ⟨1,
    0x23ff12b05da81a12515025b51b8c7232b5e6956a9357a7b8b2de8960ebe04f04,
    0xedc202197ae21c35d863434399d5ac7eb2d13fff4c700481f6b6b50b51a66cee,
    1741480202, 0x407fffff, 0⟩
  transactions := ⟨[coinbaseTx ⟨[120, 51], by decide⟩ 250000000001], by decide⟩

/-- A coinbase and the grant. -/
def f1 : Block where
  header := ⟨1,
    0x54ceead1c8f8b9a5264f02ffeaa1b9e2182c5b077a1219a7541500a3049f692,
    0xefb2c9c7c9043cdb99fe6e36459f9abb54c55e70f03e7fe4df9f3a47c8f97ddf,
    1741479002, 0x407fffff, 0⟩
  transactions := ⟨[coinbaseTx ⟨[102, 49], by decide⟩ 250000000000, grant], by decide⟩

/-- Two coinbases, each with the reward. -/
def m1 : Block where
  header := ⟨1,
    0x54ceead1c8f8b9a5264f02ffeaa1b9e2182c5b077a1219a7541500a3049f692,
    0x8b64741ce6596ec597c9ed24a94e3e86bb6067a7030d435b513075173ade2707,
    1741479002, 0x407fffff, 1⟩
  transactions := ⟨[coinbaseTx ⟨[109, 49], by decide⟩ 250000000000, coinbaseTx ⟨[109, 50], by decide⟩ 250000000000], by decide⟩

/-- Its hash is above the target. -/
def w1 : Block where
  header := ⟨1,
    0x54ceead1c8f8b9a5264f02ffeaa1b9e2182c5b077a1219a7541500a3049f692,
    0x212b61ed34d0305367037f084c2b82b5179bc00b60e8930e9578a14a8d624928,
    1741479002, 0x407fffff, 4⟩
  transactions := ⟨[coinbaseTx ⟨[119, 49], by decide⟩ 250000000000], by decide⟩

def w2 : Block where
  header := ⟨1,
    0xfac5ef74ff9879ef1a5d6cf1960932281d93319a4b1b12552adcb35b2ab79d80,
    0x370498bf2953570fb995e0a13be406cbfb560186a2c50477979afd02e804e607,
    1741479602, 0x407fffff, 1⟩
  transactions := ⟨[coinbaseTx ⟨[119, 50], by decide⟩ 250000000000], by decide⟩

/-- The header of `a2` over the transactions of `a1`. -/
def a2Forged : Block := ⟨a2.header, a1.transactions⟩

/-! ## The tables of these blocks and transactions -/

def tables : Tables where
  digests :=
    [(0x4c24e26e9c8cef2f,
        0x9317d42691d573fd7bf1cf58a50f4557729e0ce688f811e31404e1512a226ca09d480faf256d7a1c3fd5deabf6e4f2ac8ca3b6e18ea589b87a3b6e15f40715d8),
      (0x7e190919bed2d1e2,
        0x9b58c99dc7df8151ded21db129cc6c5d52a5f49a163d1a93cd733d1654d80276b5ad3089989e01b0c13f670e868ba27b6f6998b03376918823180f36d0dbf583),
      (0x34cfa897f226e2ba,
        0x1c1454ad4f42357eb4435c7b1225b0f23d5258739f53e9cd79ca280d91fe2a8a8e27af7297d4a7888d5732411c21413769606a5e79577fe55173e6c1ff3dbff0),
      (0x28bc94e503ee616c,
        0x9728a874c16d946d9067bbf393f5d4dbc411836c744aa17d56cba24b6242411a6845403be73a813d45fa420646a9abc5674a984074ed0292d2ce212701458232),
      (0x135a0168f3b79014,
        0x058a6986f512a5db1307555d00d08253c962a0b00801286858e274ca961372de862e4327b1730111ef48d13a605d6bf33232e0ce84a381764b8bccddd72220fa),
      (0x22f7be0fe0be0d7c,
        0xbfa09cbc779d7b66d826f905edbedadad2d0079fb3e806e17f99a1cc7cfbe92f167d5673d7418440006b96092db95a37e4b60a8c4b351e579ba963c7ea0e133e),
      (0xdf0ead0a3e1c2fad,
        0x30efaa58c74c33d3d2fe337f3d1de5572cc83d944b84ca4c78862756784651878b31bbcbcc25edb3a9b8479d9d7e1fd2c60c13d940c55719236a52d153bcdea4),
      (0xab78a8c539c59f86,
        0x72511d0ff14dc2430a21d8eb2c577075885be12cf710f0b2ea91eea39f7ad8d43ecb5da30458e7a9bff8f98355a96237640c572665be766a371071613829dd14),
      (0x77495b67a47977b5,
        0x054ceead1c8f8b9a5264f02ffeaa1b9e2182c5b077a1219a7541500a3049f6929caaa4fc02d72c8d74105965c537b56b8eb271b7b0c3a32810ecd5e907255e2a),
      (0xf32dd1ea7ce7b747,
        0xb495fa1293cb1ce19588eaf693b432b16374eb63b0276cf4aac14f0e3c568fe59ab6212c617972bd72f0f43d1236826fcaa450a0d4bd7c2022a62936d452e1e6),
      (0xc85a86192af234c7,
        0x6d50b902b4f80931032e4881d34d2db118eb63dce664e0fdae80ec2d856a96a32e0fbf5758e9b8122f4404ccba090b0798e8d657fc211cd16136cdbc1fce889d),
      (0xd438d1ea7cf18976,
        0x22c2e7ac25028d7e3b63b01d44939ed6232b33726805fe3673ca31e3b9af014dd182dbabcf4e3df3a88700026898f264d022d1d3e4ceda4b9c90c15d484b2531),
      (0x273e406961df3460,
        0x23ff12b05da81a12515025b51b8c7232b5e6956a9357a7b8b2de8960ebe04f044f37e4afddda66934de98c0704e59d801c0285952cc9ba09d42a70111fbd3054),
      (0xb543d1ea7cfb5ba5,
        0xb07bb326884d851540896fddf0d1a7e22d1629d40e911fbfe2cc65242b6f56b7d6bbf424d697d6d051f86cae07c97f71b9d584746fda10434a7c5726d927a8b3),
      (0xe7eb2a1eba5932e6,
        0x2502fec34b6f946ded238fa5005ce5d981d1997a97bf7db5a0a1a4795d1272541b4cd28ad27b5a2eefc1cf3ff6bb702fe090938166db5726a833922dafbf0d8d),
      (0xfe2dd1ea86b9df22,
        0x0a9125499848bda95c8108b1198875d2b657145166792f11929dbc42409f2587ee46e73a0df1817c3301e293ff200d1222ed85079ad96f221a191787421d33eb),
      (0xb33a290d18db4151,
        0x540171dabc8eb06b8ccb47fced8310a2783b7e76429884d706a945fdd294393682550979e4b86628dbb7eda682dc37ea5d9269a1483c30e9648c71455c43a0ff),
      (0xdf38d1ea86c3b151,
        0x4ce48930d283c080d5c274f206a435884c41068e3aaa08182b951fa8c9281058f0d70108ddd93ac2495d4a14be4a379d76e97581622532dbb57dab5673d34866),
      (0xfe497d1168ebe10b,
        0x3a9223ab292247d9c7a9ae31852e6ff5c9a4e58fead81d923aea96cd111df5d9c1ff03a35f3057accda5cfcefd91dd42c10cc851409e8a475c1c77e598af77cb),
      (0xc043d1ea86cd8380,
        0x60344a1a38d6339cb8fe8e5a9706408ca59552596765622c1c1c1d06b84621a421b1ca2923ac2a8fa94e6cbfc0b29355d76437a90a5275cbd808556944645670),
      (0x84a3936980a299f5,
        0x53503d18320097741d4050dcb130af5f8fdf60a95770e504bbda75140b6cb0bfda7fcd286a8f8c27242dad785e84afb8615e8d2cc28f03fd805e93c99a110111),
      (0xa14ed1ea86d755af,
        0xfadd212f35bdf39331ffa7988540c6e73732e827f01ac011fcc63a7bef91857d958524f302a9e2f0f549993c4b645214b636ef42797bd59265bc37f3d40fca8a),
      (0xdf15240d5613a140,
        0x07afa8e1a4c8b858336f867e15836026df554cf5e0dc6b9faaa7d73ff3494d2b279ce7309d8e7a01ce8eda4b5f8a8c91d800b613dc8872924c8149d2fa07bedc),
      (0xd138d1eb896fff69,
        0xcee12a0ac4f5885c533a4ded521d9cadafd1731c4ec60e2f60ce800109c2e96c771b985985a6bab0ffdb9e4f08063cc15353db64f7fa47906513f455336df7e4),
      (0x7eb99fa6c7582945,
        0x7c406f99a3bdccf0670a1cc1076a17b48ecb9cd6169c4be0831a09daac1fa5221fa70fcc790bc5a203c6353756989c0c1d8fffae96cc0fe9103c57fb9b80004a),
      (0xdc38d1eb93422744,
        0xd1a936bc3fe891a7e807f450a13c845edd6f8ad8eae35dcae8b45b8722117220eb62c407035ee015ac72d49887cc2f26ebdff06fae016f8a4213456740705eb5),
      (0x37512f26b9bfb9ad,
        0x40dfd9e7dd56cbc238bf0e09cc46c72f4e5ef0d4fbbbe9ea711344602776f56d20ac9a19ac0198db4172475dd657dcfd90ff124fbb10fd64214241bd0125e9db),
      (0xb243d1eb8979d198,
        0xedc202197ae21c35d863434399d5ac7eb2d13fff4c700481f6b6b50b51a66cee1b4df4de2acc1f70a97017b7590d89b22548e9f554b7599802524894333e0dfc),
      (0x7d588329d96ed02d,
        0x2d3cc0fa843a7fe30fd7b6aca4e0538d7de6d4539cd12012318c9e168b36a28c00d081798edda0b2412f70a3b94f2640548154be69d4984fc52fff2974a0f5b0),
      (0x58d293c2302c6761,
        0xc177e27d1134fcfd0ea07a90f66ae9ec784884606af7c647d1049e677eeece44932c3e6a309dec41c02c4605db817f064cc0af8b2ba89590b570eff7d91d198f),
      (0x51b3e826641597b2,
        0x5fe7c85dc81955af8976a60b125231c0a8ea824db77e82a0a42efdccb3720d1d8e60a0bba05491ff8064acff0c9909e76f2888242a1858d65ec45a8b2f9b98c6),
      (0x7f7e7636701d5b3e,
        0x007a1e5c785af7d2011c5a0d75e0849815c84590132511a118352fba7e501f1b3d7b04ba9664c5d8ee396c76dbe0d2418de552624434ef0bd2eeedd783afcaae),
      (0xa07a83145ea320de,
        0xb549577935820a08bc7def2c59cea248b5685efcb525c29a54241c5256ed65052e668f0bf5ac31d5f49b0af53c20275ef44493203701229a39ae2744c7e05b38),
      (0x2a2dd1eaae027ec9,
        0x845c7de371971a00f3236ed5426f612b81e7b22fa3ca18688700803651c17c489746fee0b18b617e6ecc36f71b407078ecf313b0f6a959955f367f7b7d3d1526),
      (0x4472b829a183e071,
        0xefb2c9c7c9043cdb99fe6e36459f9abb54c55e70f03e7fe4df9f3a47c8f97ddff30fba5820b2fb7deebcc4f8d419492d435642caa149d950f9eae5f6d735144b),
      (0x558f2ef6cf051ec4,
        0x2e9b0ed8c77aca057b6ad12fe94fa03b7b27b2fc0e642c5814d0f8789a1d6afdda8946916b0ffd499e5b392559ea24775f06f0ff3c2fc293cef8f9a420309da6),
      (0xa725030871924fff,
        0x535231c408fcad7c75d8d475110742bb08040bc0eaae739f12dcad37e632829ad59c1459c9ddd8b8230f65ac6e649fee4fcaa40e2008036eb77deb04fec4c0e6),
      (0x3b5fe872dd23685a,
        0x04b757ee229a2768a04a8f1ffac7ba09a174b22f1d674753ce8d16b6ced8c83b056b06d79965752fb65763a5b2fe553ddcf7453437bbf81c4cb9a16cc857394a),
      (0xd8d121858cad126d,
        0x563cbdfd7fec2a954ccc932f74ba3596f4d81a4fd17d2f43dd94b4db86948988f5256840a1e109878240178ebccdf3fc6a821b275ad532369c57fa84de9fd351),
      (0xaccbdd6ff9be2f48,
        0x0bb6c7e58bb66a46c53a4d68a73258f6d72901111d54495268c5b1c80a8cd15f78f2e9fff67edbcd612aaba567ac59dc8ccfeee8905c93a77586ba3cd162284c),
      (0xeeefb07a8ed61cc3,
        0xef72660f4969edd46529a743077bfc2b4d8b574376ad89e31ba2dda59a05184554732cbafaef03ce80c1931f8b59a3734a1c83543858006714dbaca406e12731),
      (0xe8f581f9ba7940cf,
        0x13247db7a7c281caa4d417cb9a15f679a28469d8e9b3803b085bdd2eea35f45d4838373b067095c42a7f41ccdfc93040814dad9c248e744063c69beff1d3d8c7),
      (0x772dd1eaf2c195c6,
        0x9a8c17687b723418d20d1b2e78e1a9a78f7f5bfb87e36c888b6f4dd296fcaaec7f4628d668731e2defcc2e4ac2c275b9fb976a0e6ceae96407d1cdb9308b435a),
      (0x5838d1eaf2cb67f5,
        0xddd34d5350250f286df94b52d74a3f662e60db2cafdcc047daf333382bf97fd8d0c349b49fbf582710d96055987d3b2dbaaa9411b5a85ce8a3ff8493e8224a23),
      (0xf56c37cfacaf85c1,
        0x8b64741ce6596ec597c9ed24a94e3e86bb6067a7030d435b513075173ade270779fe78df5b88a8e70ecd01ad73158b64beaa2062226a69a0ef46045692710eee),
      (0x7e57870681f78403,
        0x21a1170f84bf17f63b6ab97c5c80313756db546251279b032be0794189836ddb37ec7b3892e39c7c801ea274f6176d9e068ac0e1581b6f4e94aea28acd99b801),
      (0xe52dd1eb54f72454,
        0x212b61ed34d0305367037f084c2b82b5179bc00b60e8930e9578a14a8d6249288df2e9536eb3e0bd91eeecaf3d9e7355892b9278f075544494f59e894af79775),
      (0x7739fc853eb1c868,
        0xfac5ef74ff9879ef1a5d6cf1960932281d93319a4b1b12552adcb35b2ab79d80f6761c0c79b93e3982d0c7cebf753ce7e31eaa1821573d6095a97dba54d440d3),
      (0xc638d1eb5500f683,
        0x370498bf2953570fb995e0a13be406cbfb560186a2c50477979afd02e804e607b692db6d5cf21d843aea78e57decb9c62d1a8648cf67f972e41fa273a974b930),
      (0x847e00ca2103ac1a,
        0x5ca7ac5df35d4af000eead5ac721d4398b310bbfbbac530e4446c8b7f4e750180885c07a5c70bdc9f2df2c2db80c6e1bcd6f5da69bdf054e70f35ddcb503afb6),
      (0x56bffd7b8f03c951,
        0xb25b99373a6e79de3e9230118a083d56ea558e0896c58ac3a984a6ee2e6e58159a355de5c24a77e5bba95b4af5745f50e427711a9be1d151d022caed24b4a0b2),
      (0x6abc9a06da53220a,
        0xdade9302ae4d065049cdada712776f6c1bddf1a71db68497c86586a0c622ccc2ed57de1119e860f243542b4c6de44afb543b373317d212adae541c0dedba222d),
      (0x400ff58154c88c51,
        0x23dbfdd76ae322a1ed6e28e991f0dfdc8570edfbd35b18ac343e741672e1b2f561ca5b614fa4d3c69e89974c4f4c062935325f917b5490d429bc07b8528d9b6b),
      (0x45aa228ef4da172,
        0x7154511810dfc2d83db1e00a922acb9ba357bba96c102bfa82ad821c6ab3b8141c42c63567809f7d6cc0db0ac9f6a7eecdde540579b9ff71cc74eaea53706c1b),
      (0x4c4051307ed65fbb,
        0xc7b96b421d7d09a241ab729493874d1c0587019181d85ad3c50ecf7fa3c1c2b724cbeec90ce93e76dc38d71185c603cc70b4a7414cb78ddf42b076315083c063),
      (0x7956ce6e8d0a9da8,
        0xf62633b0d0ea6ce99b0d78b870f767391fd27ddfef5c19dc6cfa27a95473e808c69547cd6054d2aa6db25db3ec40a67a3e01ef368b4b1eb949d57436070f028f),
      (0x470c9bd84bec994f,
        0x8c8ad2d1631596fde69b5f24f5b470deae7e1a5bef6334f2b7ece89eb77c6b45b7cef955cf7eb9d9ae8d157534d68f1b7b872481a918da070a4a4920c7200725),
      (0xe21ef1d4a1e3929d,
        0xea97fb8435e2987b78d0ef472e4e8ab0b8e557447a224fd33e8d40e7a70f876f9c21b68ec9d85e92ef770c7bbb0cb2f8a43b6b339e4ee1d98dc73c67842dea69)]
  signatures :=
    [0x8938c5264e33d75d,
      0xc98f728b5cc9053e,
      0x3ca4c5f358dd9960,
      0x4078cdad3d414cc1,
      0xa8600890eb4d780a,
      0xbc1d4fe1665bc645,
      0xe6976363627f26b7]
  addresses :=
    [(0x78c3c169bbf3ee40, aliceAddress.toList),
      (0x5a190a8022f02b37, bobAddress.toList)]

def crypto : Crypto := tables.crypto

/-! ## Surroundings -/

/-- A clock past every block, every write succeeds, block ids in their order. -/
def env : Env where
  now := 1800000000
  visitOrder := .byRank BitVec.toNat fun _ _ h => BitVec.eq_of_toNat_eq h

/-- A height and a clock for the mempool, and the two addresses above as the
standard ones. -/
def context (utxo : UTXOSet) : Mempool.Context where
  utxo := utxo
  currentHeight := 10
  now := 0
  isStandardAddress a := a = aliceAddress.toList || a = bobAddress.toList
  txVisit := .byRank BitVec.toNat fun _ _ h => BitVec.eq_of_toNat_eq h
  orphanVisit := .byRank BitVec.toNat fun _ _ h => BitVec.eq_of_toNat_eq h
  bucket := id
  bucket_perm _ := .refl _

/-- The output that `payment` spends. -/
def confirmed : UTXOSet := (∅ : UTXOSet).insert ⟨7, 0⟩ ⟨⟨100000, aliceAddress⟩, 1, false⟩

/-- The outputs that `largePayment` spends. -/
def confirmedLarge : UTXOSet :=
  ((∅ : UTXOSet).insert ⟨7, 0⟩ ⟨⟨4611686018427387904, aliceAddress⟩, 1, false⟩).insert ⟨7, 1⟩
    ⟨⟨4611686018427387904, aliceAddress⟩, 1, false⟩

end Regtest

end Cryptex
