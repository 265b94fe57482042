import TokenMarket.Main
import TokenMarket.Proofs.MintedToken
import TokenMarket.Proofs.ShellCommand
import TokenMarket.Rpc.Script
import TokenMarket.State.Memory
import TokenMarket.Proofs.History
import TokenMarket.Proofs.RemoteReads
import TokenMarket.Proofs.Answers
import TokenMarket.Proofs.FreshRoots
import TokenMarket.Proofs.Messages
import TokenMarket.Proofs.Minutes
import TokenMarket.Proofs.PlacedOrders
import TokenMarket.Proofs.SignedCommands
import TokenMarket.Proofs.Selection
import TokenMarket.Proofs.Settings
import TokenMarket.Proofs.Precedence
import TokenMarket.Proofs.Memoryless
import TokenMarket.Proofs.JsonReadBack
import TokenMarket.Proofs.DeployDescription
import TokenMarket.Proofs.SealedArgument
import TokenMarket.Proofs.HolderRecord
import TokenMarket.Proofs.ApprovedRecord
import TokenMarket.Proofs.WrittenNumbers
import TokenMarket.Proofs.HashForms
import TokenMarket.Proofs.NumberWidths
import TokenMarket.Proofs.Traversal
import TokenMarket.Proofs.Places
import TokenMarket.Proofs.InputText
import TokenMarket.Proofs.Course
import TokenMarket.Proofs.EndOfInput
import TokenMarket.Proofs.Endings
import TokenMarket.Proofs.Listings
import TokenMarket.Proofs.Validity
import TokenMarket.Proofs.IdListRecord
import TokenMarket.Proofs.ShownRecord
import TokenMarket.Proofs.LineEnds
import TokenMarket.Text.Ansi
import TokenMarket.Proofs.Pages
import TokenMarket.Proofs.StyledText
import TokenMarket.Proofs.Decoration
import TokenMarket.Proofs.OutputLines
import TokenMarket.Proofs.WrittenConfig
