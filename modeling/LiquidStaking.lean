import LiquidStaking.AllOrNothing
import LiquidStaking.Claimable
import LiquidStaking.Entitled
import LiquidStaking.Exit
import LiquidStaking.FeeChanges
import LiquidStaking.Funded
import LiquidStaking.Gas
import LiquidStaking.Holders
import LiquidStaking.Indexer
import LiquidStaking.Ledger
import LiquidStaking.MessageHash
import LiquidStaking.NearCustody
import LiquidStaking.OncePerEpoch
import LiquidStaking.Payout
import LiquidStaking.Redelivery
import LiquidStaking.Residuals
import LiquidStaking.Restarts
import LiquidStaking.Rollback
import LiquidStaking.Settling
import LiquidStaking.StakeEnds
import LiquidStaking.Target
import LiquidStaking.Trading
import LiquidStaking.Whereabouts
import LiquidStaking.Wrapping
