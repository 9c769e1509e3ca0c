import VaultMarket.Sha256
set_option autoImplicit false

namespace VaultMarket

def tagWidth : Nat := 8

def tag (family name : String) : Bytes :=
  (Sha256.hash (Bytes.ofString (family ++ ":" ++ name))).take tagWidth

@[simp] theorem length_tag (family name : String) : (tag family name).length = tagWidth := by
  simp [tag, tagWidth]

end VaultMarket
