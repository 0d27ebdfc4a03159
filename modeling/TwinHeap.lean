import TwinHeap.Config
import TwinHeap.Frame
import TwinHeap.Metrics
import TwinHeap.Proofs.Exchange
import TwinHeap.Proofs.Results
import TwinHeap.Proofs.Severing
import TwinHeap.Proofs.Stability
import TwinHeap.Property.Block
import TwinHeap.Scenario.Run
import TwinHeap.Proofs.Oblivion
import TwinHeap.Proofs.Books
import TwinHeap.Proofs.Encoding
import TwinHeap.Proofs.Bookkeeping
import TwinHeap.Proofs.Decided
import TwinHeap.Proofs.Nesting
import TwinHeap.Proofs.Apart
import TwinHeap.Proofs.Making
import TwinHeap.Proofs.Handing
import TwinHeap.Proofs.Echo
import TwinHeap.Proofs.RoundTrip
import TwinHeap.Proofs.Spelling
import TwinHeap.Proofs.Agreement
import TwinHeap.Proofs.Selection
import TwinHeap.Proofs.Tightness
import TwinHeap.Proofs.Blocks
import TwinHeap.Proofs.Preparation
import TwinHeap.Proofs.Cycles
import TwinHeap.Proofs.Packing
import TwinHeap.Proofs.Windows
import TwinHeap.Proofs.Dispatch
import TwinHeap.Proofs.Custody
import TwinHeap.Proofs.Collections
import TwinHeap.Proofs.Frames
import TwinHeap.Proofs.Names
import TwinHeap.Proofs.Standing
import TwinHeap.Proofs.Sparing
import TwinHeap.Proofs.Creation
import TwinHeap.Proofs.Tenure
