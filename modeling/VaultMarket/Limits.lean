set_option autoImplicit false

namespace VaultMarket.Limits

def serviceSigners : Nat := 3

def serverId : Nat := 32
def serverName : Nat := 64
def username : Nat := 32
def handle : Nat := 32
def serverLabel : Nat := 32
def ticker : Nat := 10

def tokenName : Nat := 32
def tokenSymbol : Nat := 10
def tokenUri : Nat := 200

def mintRecipients : Nat := 10

def seed : Nat := 32

end VaultMarket.Limits
