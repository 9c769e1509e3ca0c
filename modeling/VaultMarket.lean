import VaultMarket.Record.Lawful
import VaultMarket.Run
import VaultMarket.Proofs.Access
import VaultMarket.Proofs.Instructions
import VaultMarket.Proofs.Changes
import VaultMarket.Proofs.Effect
import VaultMarket.Proofs.Perform
import VaultMarket.Proofs.Addresses
import VaultMarket.Proofs.History
import VaultMarket.Proofs.Handles
import VaultMarket.Proofs.RegistryControl
import VaultMarket.Proofs.ServiceGate
import VaultMarket.Proofs.VaultControl
import VaultMarket.Proofs.Seeds
import VaultMarket.Proofs.Origins
import VaultMarket.Proofs.Accounts
import VaultMarket.Proofs.Provision
import VaultMarket.Proofs.Widths
import VaultMarket.Proofs.ServerNames
import VaultMarket.Proofs.VaultAddresses
import VaultMarket.Proofs.Reports
import VaultMarket.Proofs.Requests
import VaultMarket.Proofs.Dispatch
import VaultMarket.Proofs.Tokens
import VaultMarket.Proofs.Issuance
import VaultMarket.Proofs.Supply
import VaultMarket.Proofs.Catalog
import VaultMarket.Proofs.Controllers
import VaultMarket.Proofs.Persistence
import VaultMarket.Proofs.Uniqueness
import VaultMarket.Proofs.MarketControl
import VaultMarket.Proofs.Footprint
import VaultMarket.Proofs.MintRecords
import VaultMarket.Proofs.RecordCodec
import VaultMarket.Proofs.CallFrames
import VaultMarket.Proofs.Aborts
import VaultMarket.Proofs.Credits
import VaultMarket.Proofs.SignerSet
import VaultMarket.Proofs.InPlace
import VaultMarket.Proofs.MarketTable
import VaultMarket.Proofs.RegistryChanges
import VaultMarket.Proofs.Space
import VaultMarket.Proofs.Creations
import VaultMarket.Proofs.Batches
import VaultMarket.Proofs.Bumps
import VaultMarket.Proofs.Destinations
import VaultMarket.Proofs.VaultRuns
