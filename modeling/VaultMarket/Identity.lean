import VaultMarket.Key
set_option autoImplicit false

namespace VaultMarket.Identity

/-- This program: 6b51XxnGuCQA3t7sZiHE4LrGdAayb79Vsh2Bkkz6gwqM. -/
def program : Key :=
  ⟨[0x53, 0x04, 0xb7, 0x21, 0xef, 0x4a, 0x5a, 0x6a, 0x02, 0xd2, 0x18, 0x12, 0xfe, 0x2c, 0xad, 0x21,
    0xb8, 0xab, 0x7b, 0x7f, 0x73, 0xb1, 0x34, 0x62, 0xb5, 0xee, 0x01, 0x8c, 0xc9, 0x0b, 0xc2, 0xd4],
    rfl⟩

/-- The key that may create the registry: Bn6jUQPC48meSkE5nZ8G8yWyxsuoiGwQwyX127nVmWWZ. -/
def configAuthority : Key :=
  ⟨[0xa0, 0x22, 0x7c, 0xb8, 0x38, 0xdb, 0xe3, 0x8e, 0x2e, 0xb0, 0x0a, 0x46, 0x63, 0x0c, 0x06, 0x83,
    0xb6, 0x39, 0xd5, 0x39, 0xf6, 0x47, 0xf6, 0xa9, 0x5d, 0x2a, 0xe1, 0xcf, 0xc1, 0xd6, 0x79, 0x86],
    rfl⟩

def systemProgram : Key := Key.zero

/-- The token program: TokenkegQfeZyiNwAJbNbGKPFXCWuBvf9Ss623VQ5DA. -/
def tokenProgram : Key :=
  ⟨[0x06, 0xdd, 0xf6, 0xe1, 0xd7, 0x65, 0xa1, 0x93, 0xd9, 0xcb, 0xe1, 0x46, 0xce, 0xeb, 0x79, 0xac,
    0x1c, 0xb4, 0x85, 0xed, 0x5f, 0x5b, 0x37, 0x91, 0x3a, 0x8c, 0xf5, 0x85, 0x7e, 0xff, 0x00, 0xa9],
    rfl⟩

end VaultMarket.Identity
