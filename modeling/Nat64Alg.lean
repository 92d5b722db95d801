import Nat64Alg.Offsets
import Nat64Alg.Truncation
import Nat64Alg.Accounting
import Nat64Alg.Carrying
import Nat64Alg.Unsolicited
import Nat64Alg.Headers
import Nat64Alg.Bounds
import Nat64Alg.Communicator
import Nat64Alg.Connections
import Nat64Alg.Checksum
import Nat64Alg.Verifying
import Nat64Alg.Workers
import Nat64Alg.Analysis
import Nat64Alg.BlockCopy
import Nat64Alg.ExtraSegment
import Nat64Alg.HTTPParser
import Nat64Alg.Input
import Nat64Alg.Literal
import Nat64Alg.Teardown
import Nat64Alg.Order
import Nat64Alg.CopyReads
import Nat64Alg.HTTPChunks
import Nat64Alg.KeyOrder
import Nat64Alg.Interference
import Nat64Alg.Draining
import Nat64Alg.NFQueue
import Nat64Alg.Announced
import Nat64Alg.Reporting
import Nat64Alg.HTTPReading
