import RelayContracts.FirstMax
import RelayContracts.FirstWins
import RelayContracts.FixedWidth
import RelayContracts.Ledger
import RelayContracts.NewtonSqrt
import RelayContracts.RelayMachine
import RelayContracts.SequenceNumbers
import RelayContracts.Synchronous
import RelayContracts.Solidity.Payments
import RelayContracts.Preda.Runtime
import RelayContracts.Preda.Ballot
import RelayContracts.Preda.BallotHistory
import RelayContracts.Preda.BallotVotes
import RelayContracts.Preda.BallotWave
import RelayContracts.Preda.BallotTally
import RelayContracts.Preda.BallotRaces
import RelayContracts.Preda.BallotCases
import RelayContracts.Preda.BallotSession
import RelayContracts.Preda.Erc20
import RelayContracts.Preda.MillionPixel
import RelayContracts.Preda.Kitty
import RelayContracts.Preda.KittyHistory
import RelayContracts.Preda.KittyTracking
import RelayContracts.Preda.KittyRegister
import RelayContracts.Preda.KittyGenes
import RelayContracts.Preda.KittyKeys
import RelayContracts.Preda.KittyPhases
import RelayContracts.Preda.KittyUint256
import RelayContracts.Preda.KittyVariants
import RelayContracts.Sei.AirDrop
import RelayContracts.Sei.Ballot
import RelayContracts.Sei.BallotParallel
import RelayContracts.Sei.Erc20
import RelayContracts.Sei.MillionPixel
import RelayContracts.Crystality.AirDrop
import RelayContracts.Crystality.AirDropSpending
import RelayContracts.Crystality.Erc20
import RelayContracts.Crystality.Erc20Forging
import RelayContracts.Crystality.Erc20Standard
import RelayContracts.Crystality.Ballot
import RelayContracts.Crystality.MillionPixel
import RelayContracts.Aptos.Ballot
import RelayContracts.Aptos.AirDrop
import RelayContracts.Aptos.Kitty
import RelayContracts.Aptos.MillionPixel
import RelayContracts.Aptos.Simulator
import RelayContracts.Aptos.BallotSharding
import RelayContracts.Sui.MillionPixel
import RelayContracts.Sui.Kitty
import RelayContracts.Sui.MockAccount
import RelayContracts.Sui.Erc20Replay
import RelayContracts.Sei.Kitty
import RelayContracts.Sei.KittyNewborns
import RelayContracts.Sei.Messages
import RelayContracts.Sei.TxBytes
import RelayContracts.Crystality.Kitty
import RelayContracts.Crystality.KittyOwnership
import RelayContracts.Crystality.KittyFinalize
import RelayContracts.KittyArithmetic
import RelayContracts.KittyParents
import RelayContracts.Association
import RelayContracts.ReadProgram
import RelayContracts.Interleaving
import RelayContracts.Slots
import RelayContracts.Aptos.BlockExecutor
import RelayContracts.Aptos.BlockExecution
import RelayContracts.Aptos.BlockStm.Components
import RelayContracts.Aptos.BlockStm.Executor
import RelayContracts.Aptos.BlockStm.Contract
import RelayContracts.Aptos.BlockStm.Invariant
import RelayContracts.Aptos.BlockStm.Steps
import RelayContracts.Aptos.BlockStm.Commits
import RelayContracts.Aptos.BlockStm.Results
import RelayContracts.Aptos.BlockStm.Calls
import RelayContracts.Aptos.BlockStm.Execute
import RelayContracts.Aptos.BlockStm.WorkerLoop
import RelayContracts.Aptos.BlockStm.Reference
import RelayContracts.Aptos.BlockStm.RollingCommits
import RelayContracts.Sei.BlockProcessing
import RelayContracts.Sei.Proposals
import RelayContracts.Tasks
import RelayContracts.Sui.ObjectStore
import RelayContracts.Sui.Checkpoints
import RelayContracts.Aptos.AccountUniverse
import RelayContracts.Translation
import RelayContracts.Preda.Erc20Uint256
