import Konomi.Assets.Ownership
import Konomi.Assets.Issuance
import Konomi.Builds
import Konomi.Ignored
import Konomi.Swap.ExactOutput
import Konomi.Swap.Mint
import Konomi.Swap.Shares
import Konomi.Swap.Redemption
import Konomi.Swap.TwoHops
import Konomi.Swap.Splitting
import Konomi.Swap.Exactness
import Konomi.Lending.Liquidate
import Konomi.Lending.Totals
import Konomi.Lending.Custody
import Konomi.Lending.Backing
import Konomi.Lending.Solvency
import Konomi.Lending.Health
import Konomi.Lending.Indexes
import Konomi.Lending.Collateral
import Konomi.Lending.Seizure
import Konomi.Lending.Commute
import Konomi.Lending.RoundTrip
import Konomi.Lending.Growth
import Konomi.Lending.Withdrawals
import Konomi.OffchainWorker.Spacing
import Konomi.OffchainWorker.Oracle
import Konomi.Swap.Address
import Konomi.Swap.Value
import Konomi.Swap.Arbitrage
import Konomi.Swap.Independence
import Konomi.Lending.Drift
import Konomi.Lending.Isolation
import Konomi.Lending.NetWorth
import Konomi.Lending.Exit
import Konomi.Lending.Ceiling
import Konomi.Lending.Lists
import Konomi.Lending.Horizon
import Konomi.Swap.Panics
