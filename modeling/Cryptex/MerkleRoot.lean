import Cryptex.Regtest

/-!
# What a merkle root commits to

The root is the digest of the tree that a transaction list lays out. With no
collision among the strings hashed, equal roots mean trees that are alike,
and nothing more: the tree of `[a, b, c]` is the tree of `[a, b, c, c]`.
-/

namespace Cryptex

open Merkle

namespace Block

variable {c : Crypto}

/-- The complete tree of a transaction list. -/
def merkleTree (transactions : List Transaction) : Option (Merkle.Tree Transaction) :=
  layout transactions

/-- Lists of one length with the same tree are equal, so a second list under
the same root has another length or confuses a transaction with a node. -/
theorem eq_of_merkleTree_eq {l₁ l₂ : List Transaction} (hlen : l₁.length = l₂.length)
    (h : merkleTree l₁ = merkleTree l₂) : l₁ = l₂ :=
  layout_inj_of_length_eq hlen h

end Block

end Cryptex
